import VirtioDisk.NodeCache
import VirtioDisk.QcowWrite

/-!
The write path of disk/qcow.c with its two caches as they are in memory: nodes that
are allocated, linked, evicted and freed. A program that uses freed memory has no
meaning from there on; up to there it goes on after every error as the source does.
Allocations succeed, and numbers of the tables are as they are after the change of
endianness.

Three fields are ghost state: the turns of the program that later results are
about, and what the tables and blocks that were changed after they were loaded
should contain.
-/

namespace VirtioDisk.QcowNodes

open ByteStore NodeCache
open QcowImage (ClusterRead Header ImageFile L2Table RefcountBlock maxCacheNodes preadInFull
  qcow2Extent)
open QcowRead (be64 intOne qcow2OflagCopied qcow2OflagCompressed qcow2OffsetMask)
open QcowWrite (Machine be16 entriesBytes pwriteInFull refcountBlockShift tableBytes)
open RawImage ReadWrite

inductive Fault where
  | freed
  | overrun
  | endless
  deriving DecidableEq

inductive Turn where
  -- A grown block is linked, and then freed.
  | growthUndone
  -- `get_cluster_table` frees a table that is linked.
  | tableFreed
  -- A node is linked under an offset that the cache has already.
  | offsetCached
  -- A node makes room for another one, and is dirty.
  | blockLost
  | tableLost
  -- A grown block has made room for others before it is returned.
  | blockGone
  -- A block grows in the place of the header, where the table cannot name it.
  | headerTaken
  -- The rest of a block is what was in the new memory.
  | blockShort
  -- A write goes over a refcount block or the level 1 table.
  | overBlock
  | overL1Table
  -- The index of a cluster, or the next one, is no `u32`.
  | indexCut
  deriving DecidableEq

structure Image where
  header : Header
  tableSize : Nat
  l1Table : Nat → UInt64
  l2 : Cache L2Table
  rfSize : Nat
  rfTable : Nat → UInt64
  rf : Cache RefcountBlock
  freeClustIdx : UInt64
  copyBuff : Nat → UInt8
  disk : ImageFile
  turns : List Turn
  changedTables : UInt64 → Option (Nat → UInt64)
  changedBlocks : UInt64 → Option (Nat → UInt16)

def Image.clusterSize (s : Image) : Nat := 2 ^ s.header.clusterBits
def Image.l2tSize (s : Image) : Nat := intOne s.header.l2Bits

def getL1Index (s : Image) (offset : UInt64) : Nat :=
  offset.toNat / 2 ^ (s.header.l2Bits + s.header.clusterBits)

def getL2Index (s : Image) (offset : UInt64) : Nat :=
  offset.toNat / 2 ^ s.header.clusterBits % intOne s.header.l2Bits

def getClusterOffset (s : Image) (offset : UInt64) : Nat :=
  offset.toNat % 2 ^ s.header.clusterBits

def rftIndex (s : Image) (clustIdx : UInt64) : Nat :=
  clustIdx.toNat / 2 ^ (s.header.clusterBits - refcountBlockShift)

def rfbIndex (s : Image) (clustIdx : UInt64) : Nat :=
  clustIdx.toNat % 2 ^ (s.header.clusterBits - refcountBlockShift)

/-! Operations. -/

/-- What the program does, with the state it leaves also where it has no meaning any more. -/
def Op (Result : Type) := Image → Except Fault Result × Image

instance : Monad Op where
  pure result := fun s => (.ok result, s)
  bind first rest := fun s =>
    match first s with
    | (.ok result, s) => rest result s
    | (.error fault, s) => (.error fault, s)

def read {Result : Type} (get : Image → Result) : Op Result := fun s => (.ok (get s), s)
def change (set : Image → Image) : Op Unit := fun s => (.ok (), set s)
def fail {Result : Type} (fault : Fault) : Op Result := fun s => (.error fault, s)

def noted (turn : Turn) (s : Image) : Image := { s with turns := turn :: s.turns }

def noteIf (happens : Image → Bool) (turn : Turn) : Op Unit :=
  change fun s => if happens s then noted turn s else s

def note (turn : Turn) : Op Unit := change (noted turn)

/-! The image file. -/

/-- What a write belongs to. -/
inductive Owner where
  | data
  | block (offset : UInt64)
  | l1Table
  deriving DecidableEq

def Owner.owns : Owner → UInt64 → Bool
  | .block offset, other => offset = other
  | _, _ => false

def OverBlock (s : Image) (owner : Owner) (base length : Nat) : Prop :=
  ∃ i < s.rfSize, s.rfTable i ≠ 0 ∧ owner.owns (s.rfTable i) = false ∧
    base < (s.rfTable i).toNat + s.clusterSize ∧ (s.rfTable i).toNat < base + length

instance (s : Image) (owner : Owner) (base length : Nat) :
    Decidable (OverBlock s owner base length) :=
  inferInstanceAs (Decidable (∃ i < s.rfSize, _))

def OverL1Table (s : Image) (owner : Owner) (base length : Nat) : Prop :=
  owner ≠ .l1Table ∧ base < s.header.l1TableOffset.toNat + 8 * s.tableSize ∧
    s.header.l1TableOffset.toNat < base + length

instance (s : Image) (owner : Owner) (base length : Nat) :
    Decidable (OverL1Table s owner base length) :=
  inferInstanceAs (Decidable (_ ∧ _))

def noteWrite (owner : Owner) (length : Nat) (offset : UInt64) : Op Unit := do
  noteIf (fun s => OverBlock s owner offset.toNat length) .overBlock
  noteIf (fun s => OverL1Table s owner offset.toNat length) .overL1Table

def pread (count : Nat) (offset : UInt64) : Op (Option (List UInt8)) := fun s =>
  let (bytes, disk) := preadInFull s.disk count offset
  (.ok bytes, { s with disk := disk })

def pwrite (bytes : List UInt8) (offset : UInt64) : Op Bool := do
  noteWrite .data bytes.length offset
  fun s =>
    let (written, disk) := pwriteInFull s.disk bytes offset
    (.ok written, { s with disk := disk })

def qcowPwriteSync (owner : Owner) (bytes : List UInt8) (offset : UInt64) : Op Bool := do
  noteWrite owner bytes.length offset
  fun s =>
    let (written, disk) := QcowWrite.qcowPwriteSync s.disk bytes offset
    (.ok written, { s with disk := disk })

def qcowWriteL1Table : Op Bool := do
  let bytes ← read fun s => tableBytes s.l1Table s.tableSize
  let offset ← read fun s => s.header.l1TableOffset
  qcowPwriteSync .l1Table bytes offset

def qcowWriteRefcountTable : Op Bool := do
  let bytes ← read fun s => tableBytes s.rfTable s.rfSize
  let offset ← read fun s => s.header.refcountTableOffset
  qcowPwriteSync .data bytes offset

/-! Level 2 tables. -/

def tableKey (c : L2Table) : Nat := c.offset.toNat

def tableAt (p : Nat) : Op L2Table := fun s =>
  match s.l2.cells p with
  | none => (.error .freed, s)
  | some c => (.ok c, s)

def newCacheTable (c : L2Table) : Op Nat := fun s =>
  (.ok s.l2.next, { s with l2 := malloc c s.l2 })

def freeTable (p : Nat) : Op Unit := do
  let _ ← tableAt p
  change fun s => { s with l2 := free p s.l2 }

def l2TableSearch (offset : UInt64) : Op (Option Nat) := fun s =>
  match search tableKey offset.toNat s.l2 with
  | none => (.error .freed, s)
  | some (found, l2) => (.ok found, { s with l2 := l2 })

def linkTable (p : Nat) : Op Unit := fun s =>
  match link tableKey maxCacheNodes p s.l2 with
  | none => (.error .freed, s)
  | some l2 => (.ok (), { s with l2 := l2 })

def cacheTable (p : Nat) : Op Unit := do
  let c ← tableAt p
  noteIf (fun s => (find tableKey (tableKey c) s.l2).isSome) .offsetCached
  noteIf (fun s => ((victim maxCacheNodes s.l2).map L2Table.dirty) = some true) .tableLost
  linkTable p

def dirtyTable (p : Nat) : Op Unit := do
  let c ← tableAt p
  change fun s => { s with l2 := store p { c with dirty := true } s.l2 }

def noteTable (p : Nat) : Op Unit := do
  let c ← tableAt p
  change fun s => { s with changedTables := fun offset =>
    if offset = c.offset then some c.table else s.changedTables offset }

def setTableEntry (p index : Nat) (entry : UInt64) : Op Unit := do
  let c ← tableAt p
  change fun s => { s with l2 := store p { c with
    dirty := true
    table := fun i => if i = index then entry else c.table i } s.l2 }
  noteTable p

def qcowL2CacheWrite (p : Nat) : Op Bool := do
  let c ← tableAt p
  if c.dirty then
    let size ← read Image.l2tSize
    let written ← qcowPwriteSync .data (tableBytes c.table size) c.offset
    if written then
      change fun s => { s with l2 := store p { c with dirty := false } s.l2 }
      pure true
    else pure false
  else pure true

def loadTable (offset : UInt64) : Op (Option Nat) := do
  let size ← read Image.l2tSize
  let bytes ← pread (8 * size) offset
  match bytes with
  | none => pure none
  | some bytes =>
      let l2t ← newCacheTable ⟨offset, false, be64 bytes⟩
      change fun s => { s with changedTables := fun other =>
        if other = offset then none else s.changedTables other }
      cacheTable l2t
      pure (some l2t)

def qcowReadL2Table (offset : UInt64) : Op (Option Nat) := do
  let found ← l2TableSearch offset
  match found with
  | some l2t => pure (some l2t)
  | none => loadTable offset

/-! Refcount blocks. -/

def blockKey (c : RefcountBlock) : Nat := c.offset.toNat

def blockAt (p : Nat) : Op RefcountBlock := fun s =>
  match s.rf.cells p with
  | none => (.error .freed, s)
  | some rfb => (.ok rfb, s)

def mallocBlock (rfb : RefcountBlock) : Op Nat := fun s =>
  (.ok s.rf.next, { s with rf := malloc rfb s.rf })

def forgetBlock (offset : UInt64) : Op Unit := change fun s => { s with
  changedBlocks := fun other => if other = offset then none else s.changedBlocks other }

def freeBlock (p : Nat) : Op Unit := do
  let _ ← blockAt p
  change fun s => { s with rf := free p s.rf }

def refcountBlockSearch (offset : UInt64) : Op (Option Nat) := fun s =>
  match search blockKey offset.toNat s.rf with
  | none => (.error .freed, s)
  | some (found, rf) => (.ok found, { s with rf := rf })

def linkBlock (p : Nat) : Op Unit := fun s =>
  match link blockKey maxCacheNodes p s.rf with
  | none => (.error .freed, s)
  | some rf => (.ok (), { s with rf := rf })

def cacheRefcountBlock (p : Nat) : Op Unit := do
  let rfb ← blockAt p
  noteIf (fun s => (find blockKey (blockKey rfb) s.rf).isSome) .offsetCached
  noteIf (fun s => ((victim maxCacheNodes s.rf).map RefcountBlock.dirty) = some true) .blockLost
  linkBlock p

def writeRefcountBlock (owner : Owner) (p : Nat) : Op Bool := do
  let rfb ← blockAt p
  if rfb.dirty then
    let written ← qcowPwriteSync owner (entriesBytes rfb.entries rfb.size) rfb.offset
    if written then
      change fun s => { s with rf := store p { rfb with dirty := false } s.rf }
      pure true
    else pure false
  else pure true

-- `absent` is the error pointer for ENOSPC, `failed` the null pointer.
inductive BlockRead where
  | absent
  | failed
  | found (rfb : Nat)

def loadRefcountBlock (m : Machine) (rfbOffset : UInt64) : Op BlockRead := do
  let size ← read fun s => s.clusterSize / 2
  let bytes ← pread (2 * size) rfbOffset
  match bytes with
  | none => pure .failed
  | some bytes =>
      noteIf (fun _ => bytes.length < 2 * size) .blockShort
      -- `dirty` is left as malloc gave it, which is not modelled: such a block is at most
      -- written back as it was read.
      let rfb ← mallocBlock ⟨rfbOffset, size, false, be16 m.heap bytes⟩
      forgetBlock rfbOffset
      cacheRefcountBlock rfb
      pure (.found rfb)

def qcowReadRefcountBlock (m : Machine) (clustIdx : UInt64) : Op BlockRead := do
  let s ← read id
  if s.rfSize ≤ rftIndex s clustIdx then pure .absent
  else
    let rfbOffset := s.rfTable (rftIndex s clustIdx)
    if rfbOffset = 0 then pure .absent
    else
      let found ← refcountBlockSearch rfbOffset
      match found with
      | some rfb => pure (.found rfb)
      | none => loadRefcountBlock m rfbOffset

def qcowGetRefcount (m : Machine) (clustIdx : UInt64) : Op UInt16 := do
  let block ← qcowReadRefcountBlock m clustIdx
  match block with
  | .absent => pure 0
  | .failed => pure (-1)
  | .found p =>
      let rfb ← blockAt p
      let index ← read (rfbIndex · clustIdx)
      if rfb.size ≤ index then pure (-1) else pure (rfb.entries index)

/-- The next index of the scan of `qcow_alloc_clusters`, which the source keeps in a `u32`. -/
def nextClustIdx : Op UInt32 := do
  let index ← read Image.freeClustIdx
  noteIf (fun s => 2 ^ 32 ≤ s.freeClustIdx.toNat + 1) .indexCut
  change fun s => { s with freeClustIdx := s.freeClustIdx + 1 }
  pure index.toUInt32

/-- The scan gives the index of the last cluster of a free run. -/
def scanClusters (m : Machine) : Nat → Nat → Nat → UInt32 → Op (Option UInt32)
  | 0, _, _, _ => fail .endless
  | fuel + 1, clustNum, i, clustIdx =>
      if clustNum ≤ i then pure (some clustIdx)
      else do
        let clustIdx ← nextClustIdx
        let refcount ← qcowGetRefcount m clustIdx.toUInt64
        if refcount = -1 then pure none
        else if 0 < refcount then scanClusters m fuel clustNum 0 clustIdx
        else scanClusters m fuel clustNum (i + 1) clustIdx

/-- `update_cluster_refcount` for some fuel. -/
abbrev Update := UInt64 → UInt16 → Op Bool

def markClusters (update : Update) (first : UInt64) : Nat → Nat → Op Bool
  | 0, _ => pure true
  | left + 1, i => do
      let marked ← update (first + UInt64.ofNat i) 1
      if marked then markClusters update first left (i + 1) else pure false

def clustNum (s : Image) (size : Nat) : Nat := (size + (s.clusterSize - 1)) / s.clusterSize

def allocClusters (m : Machine) (update : Update) (size : Nat) (updateRef : Bool) :
    Op UInt64 := do
  let count ← read (clustNum · size)
  let bits ← read fun s => UInt64.ofNat s.header.clusterBits
  let found ← scanClusters m m.fuel count 0 0
  match found with
  | none => pure (-1)
  | some last =>
      let first := (last + 1).toUInt64 - UInt64.ofNat count
      if updateRef then
        let marked ← markClusters update first count 0
        pure (if marked then first <<< bits else -1)
      else pure (first <<< bits)

def setRefcountEntry (index : Nat) (offset : UInt64) : Op Unit := change fun s => { s with
  rfTable := fun i => if i = index then offset else s.rfTable i }

/-- The label `recover_rft`. -/
def undoGrowth (rfb rftIdx : Nat) : Op (Option Nat) := do
  note .growthUndone
  setRefcountEntry rftIdx 0
  freeBlock rfb
  pure none

/-- The new block is written, linked, and entered in the table. -/
def linkGrown (rftIdx : Nat) (newBlockOffset : UInt64) : Op (Option Nat) := do
  noteIf (fun _ => newBlockOffset = 0) .headerTaken
  let size ← read fun s => s.clusterSize / 2
  let rfb ← mallocBlock ⟨newBlockOffset, size, true, fun _ => 0⟩
  let written ← writeRefcountBlock .data rfb
  if written then
    change fun s => { s with changedBlocks := fun other =>
      if other = newBlockOffset then some fun _ => 0 else s.changedBlocks other }
    cacheRefcountBlock rfb
    setRefcountEntry rftIdx newBlockOffset
    pure (some rfb)
  else
    freeBlock rfb
    pure none

def qcowGrowRefcountBlock (m : Machine) (update : Update) (clustIdx : UInt64) :
    Op (Option Nat) := do
  let s ← read id
  let rftIdx := rftIndex s clustIdx
  if s.rfSize ≤ rftIdx then pure none
  else
    let newBlockOffset ← allocClusters m update s.clusterSize false
    if newBlockOffset = -1 then pure none
    else
      let linked ← linkGrown rftIdx newBlockOffset
      match linked with
      | none => pure none
      | some rfb =>
          let updated ← update (newBlockOffset >>> UInt64.ofNat s.header.clusterBits) 1
          noteIf (fun s => (s.rf.cells rfb).isNone) .blockGone
          if updated then
            let written ← qcowWriteRefcountTable
            if written then pure (some rfb) else undoGrowth rfb rftIdx
          else undoGrowth rfb rftIdx

def setRefcount (p index : Nat) (refcount : UInt16) : Op Unit := do
  let rfb ← blockAt p
  let entries := fun i => if i = index then refcount else rfb.entries i
  change fun s => { s with
    rf := store p { rfb with dirty := true, entries := entries } s.rf
    changedBlocks := fun offset =>
      if offset = rfb.offset then some entries else s.changedBlocks offset }

def reuseCluster (clustIdx : UInt64) (refcount : UInt16) : Op Unit := change fun s =>
  if refcount = 0 ∧ clustIdx < s.freeClustIdx then { s with freeClustIdx := clustIdx } else s

/-- The rest of `update_cluster_refcount`, for the block at `p`. -/
def updateBlock (p : Nat) (clustIdx : UInt64) (append : UInt16) : Op Bool := do
  let rfb ← blockAt p
  let index ← read (rfbIndex · clustIdx)
  if rfb.size ≤ index then pure false
  else
    let refcount := rfb.entries index + append
    setRefcount p index refcount
    let written ← writeRefcountBlock (.block rfb.offset) p
    if written then
      reuseCluster clustIdx refcount
      pure true
    else pure false

def updateClusterRefcount (m : Machine) : Nat → Update
  | 0, _, _ => fail .endless
  | fuel + 1, clustIdx, append => do
      let block ← qcowReadRefcountBlock m clustIdx
      match block with
      | .found p => updateBlock p clustIdx append
      | .failed => pure false
      | .absent =>
          let grown ← qcowGrowRefcountBlock m (updateClusterRefcount m fuel) clustIdx
          match grown with
          | none => pure false
          | some p => updateBlock p clustIdx append

def qcowAllocClusters (m : Machine) (size : Nat) (updateRef : Bool) : Op UInt64 :=
  allocClusters m (updateClusterRefcount m m.fuel) size updateRef

def freeEach (m : Machine) : Nat → UInt64 → UInt64 → Op Unit
  | 0, _, _ => fail .endless
  | fuel + 1, offset, stop =>
      if offset ≤ stop then do
        let s ← read id
        let _ ← updateClusterRefcount m m.fuel
          (offset >>> UInt64.ofNat s.header.clusterBits) (-1)
        freeEach m fuel (offset + UInt64.ofNat s.clusterSize) stop
      else pure ()

def qcowFreeClusters (m : Machine) (clustStart size : UInt64) : Op Unit := do
  let mask ← read fun s => ~~~(UInt64.ofNat s.clusterSize - 1)
  freeEach m m.fuel (clustStart &&& mask) ((clustStart + size - 1) &&& mask)

/-! The level 2 table of a write. -/

def setL1Entry (index : Nat) (entry : UInt64) : Op Unit := change fun s => { s with
  l1Table := fun i => if i = index then entry else s.l1Table i }

/-- The label `free_cache`, for a table that may be linked. -/
def freeCache (m : Machine) (l2t : Nat) (linked : Bool) (l2tNewOffset size : UInt64) :
    Op (Option Nat) := do
  noteIf (fun _ => linked) .tableFreed
  freeTable l2t
  qcowFreeClusters m l2tNewOffset size
  pure none

/-- The table of a new cluster. The new node is lost when there was a table before. -/
def copiedTable (m : Machine) (l2tOffset l2tNewOffset size : UInt64) : Op (Option Nat) := do
  let new ← newCacheTable ⟨l2tNewOffset, false, fun _ => 0⟩
  if l2tOffset = 0 then pure (some new)
  else
    let found ← qcowReadL2Table l2tOffset
    match found with
    | some l2t => pure (some l2t)
    | none =>
        qcowFreeClusters m l2tNewOffset size
        pure none

def moveTable (m : Machine) (l1tIdx : Nat) (l2tOffset l2tNewOffset : UInt64) :
    Op (Option Nat) := do
  let size ← read fun s => UInt64.ofNat s.clusterSize
  let found ← copiedTable m l2tOffset l2tNewOffset size
  match found with
  | none => pure none
  | some l2t =>
      dirtyTable l2t
      let written ← qcowL2CacheWrite l2t
      if written then
        cacheTable l2t
        noteTable l2t
        setL1Entry l1tIdx (l2tNewOffset ||| qcow2OflagCopied)
        let stored ← qcowWriteL1Table
        if stored then
          qcowFreeClusters m l2tOffset size
          pure (some l2t)
        else freeCache m l2t true l2tNewOffset size
      else freeCache m l2t (l2tOffset ≠ 0) l2tNewOffset size

/-- The node of the table and the index of the entry, `none` for -1. -/
def getClusterTable (m : Machine) (offset : UInt64) : Op (Option (Nat × Nat)) := do
  let s ← read id
  let l1tIdx := getL1Index s offset
  let l2tIdx := getL2Index s offset
  if s.tableSize ≤ l1tIdx then pure none
  else if s.l2tSize ≤ l2tIdx then pure none
  else
    let l2tOffset := s.l1Table l1tIdx
    if l2tOffset &&& qcow2OflagCopied ≠ 0 then
      let found ← qcowReadL2Table (l2tOffset &&& ~~~qcow2OflagCopied)
      pure (found.map (·, l2tIdx))
    else
      let l2tNewOffset ← qcowAllocClusters m (8 * s.l2tSize) true
      -- The source takes the offset of a new cluster for the error, and the error for an offset.
      if l2tNewOffset ≠ -1 then pure none
      else
        let moved ← moveTable m l1tIdx l2tOffset l2tNewOffset
        pure (moved.map (·, l2tIdx))

/-! One cluster. -/

def readCompressed (entry : UInt64) : Op ClusterRead := do
  let s ← read id
  let (offset, count) := qcow2Extent s.header.clusterBits entry
  let bytes ← pread count offset
  match bytes with
  | none => pure .error
  | some bytes => if s.clusterSize < bytes.length then fail .overrun else pure .error

def readPlain (clustStart : UInt64) (clustOffset length : Nat) : Op ClusterRead :=
  if clustStart = 0 then pure (.zero length)
  else do
    let bytes ← pread length (clustStart + UInt64.ofNat clustOffset)
    match bytes with
    | none => pure .error
    | some bytes => pure (.data length bytes)

def qcow2ReadCluster (offset : UInt64) (dstLen : Nat) : Op ClusterRead := do
  let s ← read id
  let l1Idx := getL1Index s offset
  let clustOffset := getClusterOffset s offset
  if s.tableSize ≤ l1Idx then pure .error
  else if s.clusterSize ≤ clustOffset then pure .error
  else
    let length := min (s.clusterSize - clustOffset) dstLen
    let l2tOffset := s.l1Table l1Idx &&& ~~~qcow2OflagCopied
    if l2tOffset = 0 then pure (.zero length)
    else
      let found ← qcowReadL2Table l2tOffset
      match found with
      | none => pure .error
      | some p =>
          let l2t ← tableAt p
          let l2Idx := getL2Index s offset
          if s.l2tSize ≤ l2Idx then pure .error
          else
            let clustStart := l2t.table l2Idx
            if clustStart &&& qcow2OflagCompressed ≠ 0 then readCompressed clustStart
            else readPlain (clustStart &&& qcow2OffsetMask) clustOffset length

def freeOld (m : Machine) (clustStart clustFlags : UInt64) : Op Unit := do
  let s ← read id
  if clustFlags &&& qcow2OflagCompressed ≠ 0 then
    let csizeShift := 62 - (s.header.clusterBits - 8)
    let size := (clustStart.toNat / 2 ^ csizeShift % 2 ^ (s.header.clusterBits - 8) + 1) * 512
    let mask := UInt64.ofNat (2 ^ csizeShift - 1)
    qcowFreeClusters m (clustStart &&& mask &&& ~~~511) (UInt64.ofNat size)
  else if clustStart ≠ 0 then qcowFreeClusters m clustStart (UInt64.ofNat s.clusterSize)
  else pure ()

/-- The label `free_cluster`. -/
def freeNew (m : Machine) (clustNewStart : UInt64) : Op (Option Nat) := do
  let size ← read fun s => UInt64.ofNat s.clusterSize
  qcowFreeClusters m clustNewStart size
  pure none

def setCopyBuff (base : Nat) (bytes : List UInt8) : Op Unit := change fun s => { s with
  copyBuff := writeRange s.copyBuff base bytes }

/-- The whole cluster with `src` in it goes to its new place. -/
def storeCopy (m : Machine) (table l2tIdx : Nat) (clustNewStart clustStart clustFlags : UInt64)
    (clustOff : Nat) (src : List UInt8) : Op (Option Nat) := do
  setCopyBuff clustOff src
  let cluster ← read fun s => readRange s.copyBuff 0 s.clusterSize
  let copied ← pwrite cluster clustNewStart
  if copied then
    setTableEntry table l2tIdx (clustNewStart ||| qcow2OflagCopied)
    let written ← qcowL2CacheWrite table
    if written then
      freeOld m clustStart clustFlags
      pure (some src.length)
    else freeNew m clustNewStart
  else freeNew m clustNewStart

/-- The branch of `qcow_write_cluster` for a cluster without the flag COPIED. -/
def copyCluster (m : Machine) (table l2tIdx : Nat) (offset clustStart clustFlags : UInt64)
    (clustOff : Nat) (src : List UInt8) : Op (Option Nat) := do
  let size ← read Image.clusterSize
  let clustNewStart ← qcowAllocClusters m size true
  -- The same inverted test.
  if clustNewStart ≠ -1 then pure none
  else if clustStart ≠ 0 then
    let copy ← qcow2ReadCluster (offset &&& ~~~(UInt64.ofNat size - 1)) size
    match copy with
    | .wild | .error => freeNew m clustNewStart
    | .zero length =>
        setCopyBuff 0 (List.replicate length 0)
        storeCopy m table l2tIdx clustNewStart clustStart clustFlags clustOff src
    | .data _ bytes =>
        setCopyBuff 0 bytes
        storeCopy m table l2tIdx clustNewStart clustStart clustFlags clustOff src
  else
    setCopyBuff 0 (List.replicate size 0)
    storeCopy m table l2tIdx clustNewStart clustStart clustFlags clustOff src

/-- How many bytes of `buf` were written, `none` for -1. -/
def qcowWriteCluster (m : Machine) (offset : UInt64) (buf : List UInt8) : Op (Option Nat) := do
  let s ← read id
  let clustOff := getClusterOffset s offset
  if s.clusterSize ≤ clustOff then pure none
  else
    let src := buf.take (min (s.clusterSize - clustOff) buf.length)
    let got ← getClusterTable m offset
    match got with
    | none => pure none
    | some (table, l2tIdx) =>
        let l2t ← tableAt table
        let entry := l2t.table l2tIdx
        let clustFlags := entry &&& (qcow2OflagCopied ||| qcow2OflagCompressed)
        let clustStart := entry &&& qcow2OffsetMask
        if clustFlags &&& qcow2OflagCopied = 0 then
          copyCluster m table l2tIdx offset clustStart clustFlags clustOff src
        else
          let written ← pwrite src (clustStart + UInt64.ofNat clustOff)
          pure (if written then some src.length else none)

/-! A write. -/

-- Every turn but the last one writes a byte.
def writeSectorLoop (m : Machine) : Nat → UInt64 → List UInt8 → Nat → Op Int
  | 0, _, _, nrWritten => pure nrWritten
  | turns + 1, offset, buf, nrWritten => do
      let size ← read fun s => s.header.size
      if buf = [] then pure nrWritten
      else if size ≤ offset then pure (-1)
      else
        let nr ← qcowWriteCluster m offset buf
        match nr with
        | none => pure (-1)
        | some nr =>
            writeSectorLoop m turns (offset + UInt64.ofNat nr) (buf.drop nr) (nrWritten + nr)

def qcowWriteSectorSingle (m : Machine) (sector : UInt64) (src : List UInt8) : Op Int :=
  writeSectorLoop m src.length (sector <<< sectorShift) src 0

def writeEach (m : Machine) (memory : Nat → UInt8) : List Range → UInt64 → Int → Op Int
  | [], _, total => pure total
  | entry :: rest, sector, total => do
      let src := readRange memory entry.base (UInt32.ofNat entry.len).toNat
      let nr ← qcowWriteSectorSingle m sector src
      if nr ≠ entry.len then pure (-1)
      else writeEach m memory rest (sector + UInt64.ofNat (entry.len / 512)) (total + nr)

def qcowWriteSector (m : Machine) (memory : Nat → UInt8) (sector : UInt64) (iov : List Range) :
    Op Int :=
  writeEach m memory iov sector 0

end VirtioDisk.QcowNodes
