import VirtioDisk.LinkedCache
import VirtioDisk.QcowNodes
import VirtioDisk.ReferenceReads

/-!
The reads of disk/qcow.c with both caches as the pointers they are in memory. They give
what they give on an image whose caches are lists of nodes, whatever is read in whatever
order, and closing the image frees every node.
-/

namespace VirtioDisk.PointerReads

open LinkedCache QcowImage ReadWrite
open ByteStore (Range)
open QcowNodes (blockKey tableKey)
open QcowRead (be64 qcow1Version)
open RawImage (sectorShift)
open QcowWrite (Machine be16 rfbIndex rftIndex)

/-- The image has its caches in `table` and `refcountTable`, and its own ones are empty. -/
structure Qcow where
  image : QcowImage.Qcow
  table : Heap L2Table
  refcountTable : Heap RefcountBlock

section Caches
variable (turns : Nat)

def l2TableLookup (l1t : Heap L2Table) (offset : UInt64) : Option (Option Nat) :=
  lookup tableKey turns l1t offset.toNat

def l2TableInsert (l1t : Heap L2Table) (p : Nat) : Option (Heap L2Table) :=
  insert tableKey turns l1t p

def cacheTable (l1t : Heap L2Table) (p : Nat) : Option (Heap L2Table) :=
  cache tableKey turns l1t maxCacheNodes p

def l2TableSearch (l1t : Heap L2Table) (offset : UInt64) : Option (Option Nat × Heap L2Table) :=
  search tableKey turns l1t offset.toNat

-- From calloc, so without pointers in the rb_node.
def newCacheTable (l1t : Heap L2Table) (c : L2Table) : Option (Nat × Heap L2Table) :=
  newNode l1t c none none

def l1TableFreeCache (l1t : Heap L2Table) : Option (Heap L2Table) :=
  freeCache turns l1t (maxCacheNodes + 1)

def refcountBlockLookup (rft : Heap RefcountBlock) (offset : UInt64) : Option (Option Nat) :=
  lookup blockKey turns rft offset.toNat

def refcountBlockInsert (rft : Heap RefcountBlock) (p : Nat) : Option (Heap RefcountBlock) :=
  insert blockKey turns rft p

def cacheRefcountBlock (rft : Heap RefcountBlock) (p : Nat) : Option (Heap RefcountBlock) :=
  cache blockKey turns rft maxCacheNodes p

def refcountBlockSearch (rft : Heap RefcountBlock) (offset : UInt64) :
    Option (Option Nat × Heap RefcountBlock) :=
  search blockKey turns rft offset.toNat

-- From malloc: `spare` is what was in the memory. `dirty` is in it too, and is left out: a
-- block is not written here.
def newRefcountBlock (spare : Nat → Option Nat × Option Nat) (rft : Heap RefcountBlock)
    (rfb : RefcountBlock) : Option (Nat × Heap RefcountBlock) :=
  newNode rft rfb (spare rft.next).1 (spare rft.next).2

def refcountTableFreeCache (rft : Heap RefcountBlock) : Option (Heap RefcountBlock) :=
  freeCache turns rft (maxCacheNodes + 1)

def qcowDiskClose (q : Qcow) : Option Qcow := do
  let rft ← refcountTableFreeCache turns q.refcountTable
  let l1t ← l1TableFreeCache turns q.table
  some { q with table := l1t, refcountTable := rft }

end Caches

section Reads
variable (turns : Nat)

def qcowReadL2Table (q : Qcow) (offset : UInt64) : Option (Option Nat × Qcow) := do
  let (found, table) ← l2TableSearch turns q.table offset
  match found with
  | some l2t => some (some l2t, { q with table := table })
  | none =>
      match preadInFull q.image.disk (8 * q.image.l2tSize) offset with
      | (none, disk) => do
          let (l2t, table) ← newCacheTable table ⟨offset, false, fun _ => 0⟩
          let table ← freeNode table l2t
          some (none, { q with image := { q.image with disk := disk }, table := table })
      | (some bytes, disk) => do
          let (l2t, table) ← newCacheTable table ⟨offset, false, be64 bytes⟩
          let table ← cacheTable turns table l2t
          some (some l2t, { q with image := { q.image with disk := disk }, table := table })

/-- What does not touch the caches. -/
def Qcow.through {Result : Type} (q : Qcow)
    (step : QcowImage.Qcow → Result × QcowImage.Qcow) : Result × Qcow :=
  ((step q.image).1, { q with image := (step q.image).2 })

def readCluster (f : EntryFormat) (q : Qcow) (offset : UInt64) (dstLen : Nat) :
    Option (ClusterRead × Qcow) :=
  let l1Idx := getL1Index q.image offset
  let clustOffset := getClusterOffset q.image offset
  if q.image.tableSize ≤ l1Idx then some (.error, q)
  else if q.image.clusterSize ≤ clustOffset then some (.error, q)
  else
    let length := min (q.image.clusterSize - clustOffset) dstLen
    let l2tOffset := q.image.l1Table l1Idx &&& f.l2Mask
    if l2tOffset = 0 then some (.zero length, q)
    else do
      let (found, q) ← qcowReadL2Table turns q l2tOffset
      match found with
      | none => some (.error, q)
      | some l2t =>
          let l2Idx := getL2Index q.image offset
          if q.image.l2tSize ≤ l2Idx then some (.error, q)
          else do
            let clustStart := (← q.table.cells l2t).table l2Idx
            if clustStart &&& f.compressed ≠ 0 then
              some (q.through (readCompressed f · clustStart))
            else some (q.through (readPlain · (clustStart &&& f.startMask) clustOffset length))

def qcow1ReadCluster : Qcow → UInt64 → Nat → Option (ClusterRead × Qcow) :=
  readCluster turns qcow1Format

def qcow2ReadCluster : Qcow → UInt64 → Nat → Option (ClusterRead × Qcow) :=
  readCluster turns qcow2Format

def qcowReadCluster (q : Qcow) : UInt64 → Nat → Option (ClusterRead × Qcow) :=
  if q.image.version = qcow1Version then qcow1ReadCluster turns q else qcow2ReadCluster turns q

def readSectorLoop (dst : Nat) (dstLen : UInt32) :
    Nat → Qcow → (Nat → UInt8) → Nat → UInt32 → UInt64 → Option (Transferred Qcow)
  | 0, q, memory, _, _, _ => some ⟨none, q, memory⟩
  | fuel + 1, q, memory, buf, nrRead, sector =>
      if nrRead < dstLen then
        if q.image.header.size ≤ sector <<< sectorShift then some ⟨some (-1), q, memory⟩
        else
          (qcowReadCluster turns q (sector <<< sectorShift) (dstLen - nrRead).toNat).bind
            fun (read, q) =>
              match read with
              | .wild => some ⟨none, q, memory⟩
              | read =>
                  if read.nr = 0 then some ⟨some (-1), q, read.store memory (dst + buf)⟩
                  else
                    readSectorLoop dst dstLen fuel q (read.store memory (dst + buf))
                      (buf + read.nr.toNat) (nrRead + read.nr)
                      (sector + (read.nr >>> 9).toUInt64)
      else some ⟨some dstLen.toNat, q, memory⟩

def qcowReadSectorSingle (fuel : Nat) (q : Qcow) (memory : Nat → UInt8) (sector : UInt64)
    (dst : Nat) (dstLen : UInt32) : Option (Transferred Qcow) :=
  readSectorLoop turns dst dstLen fuel q memory 0 0 sector

def readEach (fuel : Nat) :
    List Range → Qcow → (Nat → UInt8) → UInt64 → Int → Option (Transferred Qcow)
  | [], q, memory, _, total => some ⟨some total, q, memory⟩
  | entry :: rest, q, memory, sector, total =>
      (qcowReadSectorSingle turns fuel q memory sector entry.base (UInt32.ofNat entry.len)).bind
        fun read =>
          match read.total with
          | none => some read
          | some nr =>
              if nr ≠ entry.len then some ⟨some (-1), read.disk, read.bytes⟩
              else readEach fuel rest read.disk read.bytes
                (sector + UInt64.ofNat (entry.len / 512)) (total + nr)

def qcowReadSector (fuel : Nat) (q : Qcow) (memory : Nat → UInt8) (sector : UInt64)
    (iov : List Range) : Option (Transferred Qcow) :=
  readEach turns fuel iov q memory sector 0

inductive BlockRead where
  | absent
  | failed
  | found (rfb : Nat)

variable (m : Machine) (spare : Nat → Option Nat × Option Nat)

def qcowReadRefcountBlock (q : Qcow) (clustIdx : UInt64) : Option (BlockRead × Qcow) :=
  if q.image.rfSize ≤ rftIndex q.image clustIdx then some (.absent, q)
  else
    let rfbOffset := q.image.rfTable (rftIndex q.image clustIdx)
    if rfbOffset = 0 then some (.absent, q)
    else do
      let (found, rft) ← refcountBlockSearch turns q.refcountTable rfbOffset
      match found with
      | some rfb => some (.found rfb, { q with refcountTable := rft })
      | none =>
          let size := q.image.clusterSize / 2
          match preadInFull q.image.disk (2 * size) rfbOffset with
          | (none, disk) => do
              let (rfb, rft) ← newRefcountBlock spare rft ⟨rfbOffset, size, false, be16 m.heap []⟩
              let rft ← freeNode rft rfb
              some (.failed, { q with image := { q.image with disk := disk }, refcountTable := rft })
          | (some bytes, disk) => do
              let (rfb, rft) ← newRefcountBlock spare rft
                ⟨rfbOffset, size, false, be16 m.heap bytes⟩
              let rft ← cacheRefcountBlock turns rft rfb
              some (.found rfb,
                { q with image := { q.image with disk := disk }, refcountTable := rft })

def qcowGetRefcount (q : Qcow) (clustIdx : UInt64) : Option (UInt16 × Qcow) := do
  let (block, q) ← qcowReadRefcountBlock turns m spare q clustIdx
  match block with
  | .absent => some (0, q)
  | .failed => some (-1, q)
  | .found p => do
      let rfb ← q.refcountTable.cells p
      if rfb.size ≤ rfbIndex q.image clustIdx then some (-1, q)
      else some (rfb.entries (rfbIndex q.image clustIdx), q)

end Reads

/-! The lists of the nodes by their last use. -/

def bare (image : QcowImage.Qcow) : QcowImage.Qcow := { image with l2Cache := [], rfCache := [] }

structure Pictures (q : Qcow) (image : QcowImage.Qcow) : Prop where
  rest : q.image = bare image
  tables : Shows tableKey maxCacheNodes q.table image.l2Cache
  blocks : Shows blockKey maxCacheNodes q.refcountTable image.rfCache

/-! The keys of a cache in memory are numbers. -/

section Keys
variable {Node : Type} {key : Node → UInt64} {offset : UInt64} {list : List Node}

theorem same_key (one two : UInt64) : decide (one.toNat = two.toNat) = decide (one = two) :=
  decide_eq_decide.mpr UInt64.toNat_inj

theorem lookup_offset : LruCache.lookup (fun c => (key c).toNat) offset.toNat list =
    LruCache.lookup key offset list := by
  simp only [LruCache.lookup, same_key]

theorem touch_offset : LruCache.touch (fun c => (key c).toNat) offset.toNat list =
    LruCache.touch key offset list := by
  rw [LruCache.touch, LruCache.touch, lookup_offset]
  simp only [same_key]

end Keys

/-- The program goes on, to what the image with the lists goes on to. -/
def Agrees {Result : Type} (concrete : Option (Result × Qcow))
    (abstract : Result × QcowImage.Qcow) : Prop :=
  ∃ after, concrete = some (abstract.1, after) ∧ Pictures after abstract.2

section Rest
variable (f : EntryFormat) (image : QcowImage.Qcow) (entry : UInt64) (clustOffset length : Nat)

theorem compressed_lists : (readCompressed f image entry).2.l2Cache = image.l2Cache ∧
    (readCompressed f image entry).2.rfCache = image.rfCache := by
  rw [readCompressed]
  cases f.extent image.header.clusterBits entry with
  | mk start count =>
      dsimp only
      cases preadInFull image.disk count start with
      | mk read disk => cases read <;> exact ⟨rfl, rfl⟩

theorem compressed_bare : readCompressed f (bare image) entry =
    ((readCompressed f image entry).1, bare (readCompressed f image entry).2) := by
  have header : (bare image).header = image.header := rfl
  have disk : (bare image).disk = image.disk := rfl
  rw [readCompressed, readCompressed, header, disk]
  cases f.extent image.header.clusterBits entry with
  | mk start count =>
      dsimp only
      cases preadInFull image.disk count start with
      | mk read disk => cases read <;> rfl

theorem plain_lists : (readPlain image entry clustOffset length).2.l2Cache = image.l2Cache ∧
    (readPlain image entry clustOffset length).2.rfCache = image.rfCache := by
  rw [readPlain]
  split
  · exact ⟨rfl, rfl⟩
  · cases preadInFull image.disk length (entry + UInt64.ofNat clustOffset) with
    | mk read disk => cases read <;> exact ⟨rfl, rfl⟩

theorem plain_bare : readPlain (bare image) entry clustOffset length =
    ((readPlain image entry clustOffset length).1,
      bare (readPlain image entry clustOffset length).2) := by
  have disk : (bare image).disk = image.disk := rfl
  rw [readPlain, readPlain, disk]
  split
  · rfl
  · cases preadInFull image.disk length (entry + UInt64.ofNat clustOffset) with
    | mk read disk => cases read <;> rfl

end Rest

section Agreement
variable {turns : Nat} {q : Qcow} {image : QcowImage.Qcow} (enough : maxTurns maxCacheNodes < turns)
include enough

theorem read_table_agrees (pictures : Pictures q image) (offset : UInt64) :
    ∃ found after, qcowReadL2Table turns q offset = some (found, after) ∧
      found.map after.table.cells = (QcowImage.qcowReadL2Table image offset).1.map some ∧
      Pictures after (QcowImage.qcowReadL2Table image offset).2 := by
  obtain ⟨rest, tables, blocks⟩ := pictures
  have disk : q.image.disk = image.disk := by rw [rest]; rfl
  have size : q.image.l2tSize = image.l2tSize := by rw [rest]; rfl
  rw [QcowImage.qcowReadL2Table, QcowImage.l2TableSearch]
  rcases tables.search enough offset.toNat with ⟨missing, misses⟩ |
    ⟨p, c, table, looked, hits, there, shows⟩
  · have absent : LruCache.lookup L2Table.offset offset image.l2Cache = none :=
      lookup_offset.symm.trans missing
    rw [absent]
    simp only [qcowReadL2Table, l2TableSearch, misses, bind, Option.bind_some, disk, size,
      Option.map_none]
    cases preadInFull image.disk (8 * image.l2tSize) offset with
    | mk read disk =>
        cases read with
        | none =>
            obtain ⟨p, more, table, allocates, frees, shows⟩ :=
              tables.dropped ⟨offset, false, fun _ => 0⟩ none none
            simp only [newCacheTable, allocates, Option.bind_some, frees]
            exact ⟨none, _, rfl, rfl, by rw [rest]; rfl, shows, blocks⟩
        | some bytes =>
            obtain ⟨p, more, table, allocates, caches, there, shows⟩ :=
              tables.loaded (by decide) enough ⟨offset, false, be64 bytes⟩ none none missing
            simp only [newCacheTable, cacheTable, allocates, Option.bind_some, caches]
            refine ⟨some p, _, rfl, ?_, by rw [rest]; rfl, shows, blocks⟩
            exact congrArg some there
  · have found : LruCache.lookup L2Table.offset offset image.l2Cache = some c :=
      lookup_offset.symm.trans looked
    rw [found]
    simp only [qcowReadL2Table, l2TableSearch, hits, bind, Option.bind_some, Option.map_some]
    refine ⟨some p, _, rfl, congrArg some there, by rw [rest]; rfl, ?_, blocks⟩
    show Shows tableKey maxCacheNodes table (LruCache.touch L2Table.offset offset image.l2Cache)
    rw [← touch_offset]
    exact shows

omit enough in
theorem through_agrees {Result : Type} {step : QcowImage.Qcow → Result × QcowImage.Qcow}
    (pictures : Pictures q image)
    (same : step (bare image) = ((step image).1, bare (step image).2))
    (lists : (step image).2.l2Cache = image.l2Cache ∧ (step image).2.rfCache = image.rfCache) :
    Agrees (some (q.through step)) (step image) := by
  obtain ⟨rest, tables, blocks⟩ := pictures
  rw [Qcow.through, rest, same]
  exact ⟨_, rfl, rfl, lists.1 ▸ tables, lists.2 ▸ blocks⟩

theorem read_cluster_agrees (f : EntryFormat) (pictures : Pictures q image) (offset : UInt64)
    (dstLen : Nat) :
    Agrees (readCluster turns f q offset dstLen) (QcowImage.readCluster f image offset dstLen) := by
  have rest := pictures.rest
  have index : getL1Index q.image offset = getL1Index image offset := by rw [rest]; rfl
  have within : getClusterOffset q.image offset = getClusterOffset image offset := by rw [rest]; rfl
  have entries : q.image.tableSize = image.tableSize := by rw [rest]; rfl
  have cluster : q.image.clusterSize = image.clusterSize := by rw [rest]; rfl
  have table : q.image.l1Table = image.l1Table := by rw [rest]; rfl
  rw [readCluster, QcowImage.readCluster]
  simp only [index, within, entries, cluster, table]
  by_cases outside : image.tableSize ≤ getL1Index image offset
  · rw [if_pos outside, if_pos outside]
    exact ⟨q, rfl, pictures⟩
  rw [if_neg outside, if_neg outside]
  by_cases behind : image.clusterSize ≤ getClusterOffset image offset
  · rw [if_pos behind, if_pos behind]
    exact ⟨q, rfl, pictures⟩
  rw [if_neg behind, if_neg behind]
  by_cases none : image.l1Table (getL1Index image offset) &&& f.l2Mask = 0
  · rw [if_pos none, if_pos none]
    exact ⟨q, rfl, pictures⟩
  rw [if_neg none, if_neg none]
  obtain ⟨found, after, reads, same, later⟩ := read_table_agrees enough pictures
    (image.l1Table (getL1Index image offset) &&& f.l2Mask)
  simp only [reads, bind, Option.bind_some]
  cases read : QcowImage.qcowReadL2Table image
      (image.l1Table (getL1Index image offset) &&& f.l2Mask) with
  | mk result next =>
      rw [read] at same later
      dsimp only at same later ⊢
      cases result with
      | none =>
          rw [Option.map_eq_none_iff.mp same]
          exact ⟨after, rfl, later⟩
      | some c =>
          obtain ⟨p, rfl, there⟩ := Option.map_eq_some_iff.mp same
          have rest := later.rest
          have index : getL2Index after.image offset = getL2Index next offset := by
            rw [rest]
            rfl
          have size : after.image.l2tSize = next.l2tSize := by
            rw [rest]
            rfl
          dsimp only
          rw [index, size]
          by_cases outside : next.l2tSize ≤ getL2Index next offset
          · rw [if_pos outside, if_pos outside]
            exact ⟨after, rfl, later⟩
          rw [if_neg outside, if_neg outside]
          simp only [there, Option.bind_some]
          split
          · exact through_agrees later (compressed_bare f next _) (compressed_lists f next _)
          · exact through_agrees later (plain_bare next _ _ _) (plain_lists next _ _ _)

theorem read_image_cluster_agrees (pictures : Pictures q image) (offset : UInt64) (dstLen : Nat) :
    Agrees (qcowReadCluster turns q offset dstLen)
      (QcowImage.qcowReadCluster image offset dstLen) := by
  have version : q.image.version = image.version := by rw [pictures.rest]; rfl
  rw [qcowReadCluster, QcowImage.qcowReadCluster, version]
  split
  · exact read_cluster_agrees enough qcow1Format pictures offset dstLen
  · exact read_cluster_agrees enough qcow2Format pictures offset dstLen

end Agreement

/-- The same for what moves bytes. -/
def Moves (concrete : Option (Transferred Qcow)) (abstract : Transferred QcowImage.Qcow) : Prop :=
  ∃ after, concrete = some ⟨abstract.total, after, abstract.bytes⟩ ∧ Pictures after abstract.disk

section Transfers
variable {turns : Nat} {q : Qcow} {image : QcowImage.Qcow} (enough : maxTurns maxCacheNodes < turns)
include enough

theorem read_loop_agrees (dst : Nat) (dstLen : UInt32) (fuel : Nat) (pictures : Pictures q image)
    (memory : Nat → UInt8) (buf : Nat) (nrRead : UInt32) (sector : UInt64) :
    Moves (readSectorLoop turns dst dstLen fuel q memory buf nrRead sector)
      (QcowImage.readSectorLoop dst dstLen fuel image memory buf nrRead sector) := by
  induction fuel generalizing q image memory buf nrRead sector with
  | zero => exact ⟨q, rfl, pictures⟩
  | succ fuel ih =>
      have size : q.image.header.size = image.header.size := by rw [pictures.rest]; rfl
      rw [readSectorLoop, QcowImage.readSectorLoop, size]
      split
      · split
        · exact ⟨q, rfl, pictures⟩
        · obtain ⟨after, reads, later⟩ := read_image_cluster_agrees enough pictures
            (sector <<< sectorShift) (dstLen - nrRead).toNat
          rw [reads, Option.bind_some]
          generalize QcowImage.qcowReadCluster image (sector <<< sectorShift)
            (dstLen - nrRead).toNat = outcome at later ⊢
          obtain ⟨read, next⟩ := outcome
          cases read with
          | wild => exact ⟨after, rfl, later⟩
          | error | zero | data =>
              dsimp only
              split
              · exact ⟨after, rfl, later⟩
              · exact ih later _ _ _ _
      · exact ⟨q, rfl, pictures⟩

theorem read_each_agrees (fuel : Nat) (iov : List Range) (pictures : Pictures q image)
    (memory : Nat → UInt8) (sector : UInt64) (total : Int) :
    Moves (readEach turns fuel iov q memory sector total)
      (QcowImage.readEach fuel iov image memory sector total) := by
  induction iov generalizing q image memory sector total with
  | nil => exact ⟨q, rfl, pictures⟩
  | cons entry rest ih =>
      obtain ⟨after, reads, later⟩ := read_loop_agrees enough entry.base (UInt32.ofNat entry.len)
        fuel pictures memory 0 0 sector
      have single : qcowReadSectorSingle turns fuel q memory sector entry.base
          (UInt32.ofNat entry.len) = _ := reads
      rw [readEach, QcowImage.readEach, single, Option.bind_some]
      rw [QcowImage.qcowReadSectorSingle]
      generalize QcowImage.readSectorLoop entry.base (UInt32.ofNat entry.len) fuel image memory 0 0
        sector = read at later ⊢
      cases whole : read.total with
      | none =>
          dsimp only
          exact ⟨after, by rw [whole], later⟩
      | some nr =>
          dsimp only
          split
          · exact ⟨after, rfl, later⟩
          · exact ih later _ _ _

end Transfers

section Refcounts
variable {turns : Nat} {q : Qcow} {image : QcowImage.Qcow} (m : Machine)
  (spare : Nat → Option Nat × Option Nat)

/-- A block and what stands for it. -/
def Found (q : Qcow) : BlockRead → QcowWrite.BlockRead → Prop
  | .absent, .absent => True
  | .failed, .failed => True
  | .found p, .found rfb => q.refcountTable.cells p = some rfb
  | _, _ => False

variable (enough : maxTurns maxCacheNodes < turns)
include enough

theorem read_block_agrees (pictures : Pictures q image) (clustIdx : UInt64) :
    ∃ block after, qcowReadRefcountBlock turns m spare q clustIdx = some (block, after) ∧
      Found after block (QcowWrite.qcowReadRefcountBlock m image clustIdx).1 ∧
      Pictures after (QcowWrite.qcowReadRefcountBlock m image clustIdx).2 := by
  have whole := pictures
  obtain ⟨rest, tables, blocks⟩ := pictures
  have disk : q.image.disk = image.disk := by rw [rest]; rfl
  have size : q.image.clusterSize = image.clusterSize := by rw [rest]; rfl
  have entries : q.image.rfSize = image.rfSize := by rw [rest]; rfl
  have table : q.image.rfTable = image.rfTable := by rw [rest]; rfl
  have index : rftIndex q.image clustIdx = rftIndex image clustIdx := by rw [rest]; rfl
  rw [qcowReadRefcountBlock, QcowWrite.qcowReadRefcountBlock, entries, index, table]
  by_cases outside : image.rfSize ≤ rftIndex image clustIdx
  · rw [if_pos outside, if_pos outside]
    exact ⟨.absent, q, rfl, trivial, whole⟩
  rw [if_neg outside, if_neg outside]
  generalize image.rfTable (rftIndex image clustIdx) = offset
  dsimp only
  by_cases none : offset = 0
  · rw [if_pos none, if_pos none]
    exact ⟨.absent, q, rfl, trivial, whole⟩
  rw [if_neg none, if_neg none, QcowWrite.refcountBlockSearch]
  rcases blocks.search enough offset.toNat with ⟨missing, misses⟩ |
    ⟨p, rfb, rft, looked, hits, there, shows⟩
  · have absent : LruCache.lookup RefcountBlock.offset offset image.rfCache = .none :=
      lookup_offset.symm.trans missing
    rw [absent]
    simp only [refcountBlockSearch, misses, bind, Option.bind_some, disk, size, Option.map_none]
    cases preadInFull image.disk (2 * (image.clusterSize / 2)) offset with
    | mk read disk =>
        cases read with
        | none =>
            obtain ⟨p, more, rft, allocates, frees, shows⟩ := blocks.dropped
              ⟨offset, image.clusterSize / 2, false, be16 m.heap []⟩
              (spare q.refcountTable.next).1 (spare q.refcountTable.next).2
            simp only [newRefcountBlock, allocates, Option.bind_some, frees]
            exact ⟨.failed, _, rfl, trivial, by rw [rest]; rfl, tables, shows⟩
        | some bytes =>
            obtain ⟨p, more, rft, allocates, caches, there, shows⟩ := blocks.loaded (by decide) enough
              ⟨offset, image.clusterSize / 2, false, be16 m.heap bytes⟩
              (spare q.refcountTable.next).1 (spare q.refcountTable.next).2 missing
            simp only [newRefcountBlock, cacheRefcountBlock, allocates, Option.bind_some, caches]
            exact ⟨.found p, _, rfl, there, by rw [rest]; rfl, tables, shows⟩
  · have found : LruCache.lookup RefcountBlock.offset offset image.rfCache = some rfb :=
      lookup_offset.symm.trans looked
    rw [found]
    simp only [refcountBlockSearch, hits, bind, Option.bind_some, Option.map_some]
    refine ⟨.found p, _, rfl, there, by rw [rest]; rfl, tables, ?_⟩
    show Shows blockKey maxCacheNodes rft (LruCache.touch RefcountBlock.offset offset image.rfCache)
    rw [← touch_offset]
    exact shows

theorem refcount_agrees (pictures : Pictures q image) (clustIdx : UInt64) :
    Agrees (qcowGetRefcount turns m spare q clustIdx)
      (QcowWrite.qcowGetRefcount m image clustIdx) := by
  obtain ⟨block, after, reads, found, later⟩ := read_block_agrees m spare enough pictures clustIdx
  rw [qcowGetRefcount, QcowWrite.qcowGetRefcount]
  simp only [reads, bind, Option.bind_some]
  generalize QcowWrite.qcowReadRefcountBlock m image clustIdx = outcome at found later ⊢
  obtain ⟨other, next⟩ := outcome
  cases block <;> cases other
  · exact ⟨after, rfl, later⟩
  · exact found.elim
  · exact found.elim
  · exact found.elim
  · exact ⟨after, rfl, later⟩
  · exact found.elim
  · exact found.elim
  · exact found.elim
  · next p rfb =>
      have there : after.refcountTable.cells p = some rfb := found
      have index : rfbIndex after.image clustIdx = rfbIndex next clustIdx := by
        rw [later.rest]
        rfl
      simp only [there, Option.bind_some, index]
      split
      · exact ⟨after, rfl, later⟩
      · exact ⟨after, rfl, later⟩

end Refcounts

/-! Any requests, one after the other. -/

inductive Request where
  | sectors (memory : Nat → UInt8) (sector : UInt64) (iov : List Range)
  | refcount (clustIdx : UInt64)

inductive Reply where
  | sectors (total : Option Int) (memory : Nat → UInt8)
  | refcount (refcount : UInt16)

section Runs
variable (turns : Nat) (m : Machine) (spare : Nat → Option Nat × Option Nat)

def serve (q : Qcow) : Request → Option (Reply × Qcow)
  | .sectors memory sector iov =>
      (qcowReadSector turns m.fuel q memory sector iov).map fun read =>
        (.sectors read.total read.bytes, read.disk)
  | .refcount clustIdx =>
      (qcowGetRefcount turns m spare q clustIdx).map fun (count, q) => (.refcount count, q)

def serveEach : List Request → Qcow → Option (List Reply × Qcow)
  | [], q => some ([], q)
  | request :: rest, q => do
      let (reply, q) ← serve turns m spare q request
      let (replies, q) ← serveEach rest q
      some (reply :: replies, q)

/-- What the image with the lists replies. -/
def expected (image : QcowImage.Qcow) : Request → Reply × QcowImage.Qcow
  | .sectors memory sector iov =>
      let read := QcowImage.qcowReadSector m.fuel image memory sector iov
      (.sectors read.total read.bytes, read.disk)
  | .refcount clustIdx =>
      let (count, image) := QcowWrite.qcowGetRefcount m image clustIdx
      (.refcount count, image)

def expectedEach : List Request → QcowImage.Qcow → List Reply × QcowImage.Qcow
  | [], image => ([], image)
  | request :: rest, image =>
      let (reply, image) := expected m image request
      let (replies, image) := expectedEach rest image
      (reply :: replies, image)

/-- After the image was opened. -/
def opened (image : QcowImage.Qcow) : Qcow := ⟨bare image, emptyHeap, emptyHeap⟩

variable {turns} {q : Qcow} {image : QcowImage.Qcow} (enough : maxTurns maxCacheNodes < turns)
include enough

theorem serve_agrees (pictures : Pictures q image) (request : Request) :
    Agrees (serve turns m spare q request) (expected m image request) := by
  cases request with
  | sectors memory sector iov =>
      obtain ⟨after, reads, later⟩ := read_each_agrees enough m.fuel iov pictures memory sector 0
      have whole : qcowReadSector turns m.fuel q memory sector iov = _ := reads
      rw [serve, whole]
      exact ⟨after, rfl, later⟩
  | refcount clustIdx =>
      obtain ⟨after, counts, later⟩ := refcount_agrees m spare enough pictures clustIdx
      rw [serve, counts]
      exact ⟨after, rfl, later⟩

theorem serve_each_agrees (requests : List Request) (pictures : Pictures q image) :
    Agrees (serveEach turns m spare requests q) (expectedEach m requests image) := by
  induction requests generalizing q image with
  | nil => exact ⟨q, rfl, pictures⟩
  | cons request rest ih =>
      obtain ⟨after, serves, later⟩ := serve_agrees m spare enough pictures request
      obtain ⟨final, runs, last⟩ := ih later
      refine ⟨final, ?_, last⟩
      simp only [serveEach, serves, bind, Option.bind_some, runs]
      rfl

theorem close_frees (pictures : Pictures q image) :
    ∃ closed, qcowDiskClose turns q = some closed ∧ (∀ p, closed.table.cells p = none) ∧
      ∀ p, closed.refcountTable.cells p = none := by
  obtain ⟨rft, blocks, noBlock⟩ := pictures.blocks.closed enough (Nat.lt_succ_self _)
  obtain ⟨l1t, tables, noTable⟩ := pictures.tables.closed enough (Nat.lt_succ_self _)
  refine ⟨{ q with table := l1t, refcountTable := rft }, ?_, noTable, noBlock⟩
  simp only [qcowDiskClose, refcountTableFreeCache, l1TableFreeCache, blocks, tables, bind,
    Option.bind_some]

/-- No read follows a pointer to nowhere, whatever is read in whatever order. -/
theorem pointer_reads_agree (requests : List Request) (tables : image.l2Cache = [])
    (blocks : image.rfCache = []) :
    ∃ final closed,
      serveEach turns m spare requests (opened image) =
        some ((expectedEach m requests image).1, final) ∧
      Pictures final (expectedEach m requests image).2 ∧
      qcowDiskClose turns final = some closed ∧ (∀ p, closed.table.cells p = none) ∧
      ∀ p, closed.refcountTable.cells p = none := by
  have start : Pictures (opened image) image := by
    refine ⟨rfl, ?_, ?_⟩
    · rw [tables]
      exact shows_empty
    · rw [blocks]
      exact shows_empty
  obtain ⟨final, serves, pictures⟩ := serve_each_agrees m spare enough requests start
  obtain ⟨closed, closes, noTable, noBlock⟩ := close_frees enough pictures
  exact ⟨final, closed, serves, pictures, closes, noTable, noBlock⟩

end Runs

def sevens : QcowImage.Qcow := (qcowReadL1Table ReferenceReads.sevensImage).2

/-- Both clusters of the image, then a refcount that its version has not, then the second
cluster again. -/
def sevensRequests : List Request :=
  [.sectors (fun _ => 1) 0 [⟨0, 512⟩, ⟨4096, 512⟩], .refcount 2, .sectors (fun _ => 1) 1 [⟨0, 512⟩]]

theorem sevens_from_pointers :
    ∃ final closed,
      serveEach 11 ⟨2 ^ 32, fun _ => 0⟩ (fun _ => (none, none)) sevensRequests (opened sevens) =
        some ((expectedEach ⟨2 ^ 32, fun _ => 0⟩ sevensRequests sevens).1, final) ∧
      Pictures final (expectedEach ⟨2 ^ 32, fun _ => 0⟩ sevensRequests sevens).2 ∧
      qcowDiskClose 11 final = some closed ∧ (∀ p, closed.table.cells p = none) ∧
      ∀ p, closed.refcountTable.cells p = none :=
  pointer_reads_agree _ _ (by decide) _ rfl rfl

end VirtioDisk.PointerReads
