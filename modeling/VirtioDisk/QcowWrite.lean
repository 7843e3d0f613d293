import VirtioDisk.QcowImage

/-!
The write path of disk/qcow.c: the refcounts, the allocator, the level 2 table of
a write, and the copy of a cluster. A node is known by its offset, and what a
function does to a node it does to the linked one. A node that is freed while it
is linked, or linked twice, leaves the lists broken for good; these are faults.
-/

namespace VirtioDisk.QcowWrite

open ByteStore LruCache QcowImage RawImage ReadWrite
open QcowRead (qcow2OflagCopied qcow2OflagCompressed qcow2OffsetMask)

/-- Where the program has no meaning any more, or does not come back. -/
inductive Fault where
  | overrun
  | freed
  | relinked
  | endless
  deriving DecidableEq

/-- `fuel` bounds the loops; `heap` is what malloc leaves in a refcount block. -/
structure Machine where
  fuel : Nat
  heap : Nat → UInt8

/-! The image file. -/

def xpwrite (disk : ImageFile) (bytes : List UInt8) (offset : Nat) : Option Nat × ImageFile :=
  match disk.host disk.calls with
  | .fails => (none, disk.called)
  | .moves most =>
      let limit := if disk.file.fixed then disk.file.size else fileMax
      let nr := min most (min bytes.length (limit - offset))
      (some nr, { disk.called with file := { disk.file with
        bytes := writeRange disk.file.bytes offset (bytes.take nr)
        size := if nr = 0 then disk.file.size else max disk.file.size (offset + nr) } })

def pwriteLoop : Nat → ImageFile → List UInt8 → Nat → Bool × ImageFile
  | 0, disk, _, _ => (true, disk)
  | turns + 1, disk, bytes, offset =>
      if bytes = [] then (true, disk)
      else
        match xpwrite disk bytes offset with
        | (none, disk) | (some 0, disk) => (false, disk)
        | (some nr, disk) => pwriteLoop turns disk (bytes.drop nr) (offset + nr)

/-- Whether all was written. -/
def pwriteInFull (disk : ImageFile) (bytes : List UInt8) (offset : UInt64) : Bool × ImageFile :=
  if fileMax < offset.toNat then (bytes = [], disk)
  else pwriteLoop bytes.length disk bytes offset.toNat

def fdatasync (disk : ImageFile) : Bool × ImageFile :=
  (disk.host disk.calls ≠ .fails, disk.called)

def qcowPwriteSync (disk : ImageFile) (bytes : List UInt8) (offset : UInt64) : Bool × ImageFile :=
  match pwriteInFull disk bytes offset with
  | (false, disk) => (false, disk)
  | (true, disk) => fdatasync disk

def be64Bytes (value : UInt64) : List UInt8 :=
  (List.range 8).map fun i => (value >>> UInt64.ofNat (8 * (7 - i))).toUInt8

def be16Bytes (value : UInt16) : List UInt8 := [(value >>> 8).toUInt8, value.toUInt8]

def tableBytes (table : Nat → UInt64) (size : Nat) : List UInt8 :=
  (List.range size).flatMap fun i => be64Bytes (table i)

def entriesBytes (entries : Nat → UInt16) (size : Nat) : List UInt8 :=
  (List.range size).flatMap fun i => be16Bytes (entries i)

/-! Nodes. -/

def setTable (q : Qcow) (c : L2Table) : Qcow :=
  { q with l2Cache := update L2Table.offset c.offset (fun _ => c) q.l2Cache }

def setBlock (q : Qcow) (c : RefcountBlock) : Qcow :=
  { q with rfCache := update RefcountBlock.offset c.offset (fun _ => c) q.rfCache }

def qcowL2CacheWrite (q : Qcow) (c : L2Table) : Bool × L2Table × Qcow :=
  if c.dirty then
    match qcowPwriteSync q.disk (tableBytes c.table q.l2tSize) c.offset with
    | (false, disk) => (false, c, { q with disk := disk })
    | (true, disk) => (true, { c with dirty := false }, { q with disk := disk })
  else (true, c, q)

def writeRefcountBlock (q : Qcow) (rfb : RefcountBlock) : Bool × RefcountBlock × Qcow :=
  if rfb.dirty then
    match qcowPwriteSync q.disk (entriesBytes rfb.entries rfb.size) rfb.offset with
    | (false, disk) => (false, rfb, { q with disk := disk })
    | (true, disk) => (true, { rfb with dirty := false }, { q with disk := disk })
  else (true, rfb, q)

def cacheRefcountBlock (q : Qcow) (c : RefcountBlock) : Qcow :=
  { q with rfCache := insert maxCacheNodes c q.rfCache }

def refcountBlockSearch (q : Qcow) (offset : UInt64) : Option (RefcountBlock × Qcow) :=
  (lookup RefcountBlock.offset offset q.rfCache).map fun rfb =>
    (rfb, { q with rfCache := touch RefcountBlock.offset offset q.rfCache })

def qcowWriteL1Table (q : Qcow) : Bool × Qcow :=
  let (written, disk) :=
    qcowPwriteSync q.disk (tableBytes q.l1Table q.tableSize) q.header.l1TableOffset
  (written, { q with disk := disk })

def qcowWriteRefcountTable (q : Qcow) : Bool × Qcow :=
  let (written, disk) :=
    qcowPwriteSync q.disk (tableBytes q.rfTable q.rfSize) q.header.refcountTableOffset
  (written, { q with disk := disk })

/-! Refcounts. -/

def refcountBlockShift : Nat := 1

def rftIndex (q : Qcow) (clustIdx : UInt64) : Nat :=
  clustIdx.toNat / 2 ^ (q.header.clusterBits - refcountBlockShift)

def rfbIndex (q : Qcow) (clustIdx : UInt64) : Nat :=
  clustIdx.toNat % 2 ^ (q.header.clusterBits - refcountBlockShift)

/-- The entries of a block of which `bytes` were read into new memory. -/
def be16 (heap : Nat → UInt8) (bytes : List UInt8) (index : Nat) : UInt16 :=
  (bytes.getD (2 * index) (heap (2 * index))).toUInt16 * 256 +
    (bytes.getD (2 * index + 1) (heap (2 * index + 1))).toUInt16

-- `absent` is the error pointer for ENOSPC, `failed` the null pointer.
inductive BlockRead where
  | absent
  | failed
  | found (rfb : RefcountBlock)

def qcowReadRefcountBlock (m : Machine) (q : Qcow) (clustIdx : UInt64) : BlockRead × Qcow :=
  if q.rfSize ≤ rftIndex q clustIdx then (.absent, q)
  else
    let rfbOffset := q.rfTable (rftIndex q clustIdx)
    if rfbOffset = 0 then (.absent, q)
    else
      match refcountBlockSearch q rfbOffset with
      | some (rfb, q) => (.found rfb, q)
      | none =>
          let size := q.clusterSize / 2
          match preadInFull q.disk (2 * size) rfbOffset with
          | (none, disk) => (.failed, { q with disk := disk })
          | (some bytes, disk) =>
              let rfb := ⟨rfbOffset, size, false, be16 m.heap bytes⟩
              (.found rfb, cacheRefcountBlock { q with disk := disk } rfb)

def qcowGetRefcount (m : Machine) (q : Qcow) (clustIdx : UInt64) : UInt16 × Qcow :=
  match qcowReadRefcountBlock m q clustIdx with
  | (.absent, q) => (0, q)
  | (.failed, q) => (-1, q)
  | (.found rfb, q) =>
      if rfb.size ≤ rfbIndex q clustIdx then (-1, q) else (rfb.entries (rfbIndex q clustIdx), q)

/-- The scan of `qcow_alloc_clusters`: the index of the last cluster of a free run. -/
def scanClusters (m : Machine) :
    Nat → Qcow → Nat → Nat → UInt32 → Except Fault (Option UInt32 × Qcow)
  | 0, _, _, _, _ => .error .endless
  | fuel + 1, q, clustNum, i, clustIdx =>
      if clustNum ≤ i then .ok (some clustIdx, q)
      else
        let clustIdx := q.freeClustIdx.toUInt32
        match qcowGetRefcount m { q with freeClustIdx := q.freeClustIdx + 1 }
            clustIdx.toUInt64 with
        | (refcount, q) =>
            if refcount = -1 then .ok (none, q)
            else if 0 < refcount then scanClusters m fuel q clustNum 0 clustIdx
            else scanClusters m fuel q clustNum (i + 1) clustIdx

/-- `update_cluster_refcount` for some fuel. -/
abbrev Update := Qcow → UInt64 → UInt16 → Except Fault (Bool × Qcow)

def markClusters (update : Update) (first : UInt64) :
    Nat → Nat → Qcow → Except Fault (Bool × Qcow)
  | 0, _, q => .ok (true, q)
  | left + 1, i, q => do
      let (marked, q) ← update q (first + UInt64.ofNat i) 1
      if marked then markClusters update first left (i + 1) q else .ok (false, q)

def allocClusters (m : Machine) (update : Update) (q : Qcow) (size : Nat) (updateRef : Bool) :
    Except Fault (UInt64 × Qcow) := do
  let clustNum := (size + (q.clusterSize - 1)) / q.clusterSize
  let (found, q) ← scanClusters m m.fuel q clustNum 0 0
  match found with
  | none => .ok (-1, q)
  | some last =>
      let first := (last + 1).toUInt64 - UInt64.ofNat clustNum
      let start := first <<< UInt64.ofNat q.header.clusterBits
      if updateRef then
        let (marked, q) ← markClusters update first clustNum 0 q
        .ok (if marked then start else -1, q)
      else .ok (start, q)

def setRefcountEntry (q : Qcow) (index : Nat) (offset : UInt64) : Qcow :=
  { q with rfTable := fun i => if i = index then offset else q.rfTable i }

-- The new block is linked before its own refcount and the table are written.
def qcowGrowRefcountBlock (m : Machine) (update : Update) (q : Qcow) (clustIdx : UInt64) :
    Except Fault (Option UInt64 × Qcow) := do
  let rftIdx := rftIndex q clustIdx
  if q.rfSize ≤ rftIdx then .ok (none, q)
  else
    let (newBlockOffset, q) ← allocClusters m update q q.clusterSize false
    if newBlockOffset = -1 then .ok (none, q)
    else
      match writeRefcountBlock q ⟨newBlockOffset, q.clusterSize / 2, true, fun _ => 0⟩ with
      | (false, _, q) => .ok (none, q)
      | (true, rfb, q) =>
          let q := setRefcountEntry (cacheRefcountBlock q rfb) rftIdx newBlockOffset
          let (updated, q) ←
            update q (newBlockOffset >>> UInt64.ofNat q.header.clusterBits) 1
          if updated then
            match qcowWriteRefcountTable q with
            | (false, _) => .error .freed
            | (true, q) => .ok (some newBlockOffset, q)
          else .error .freed

/-- The rest of `update_cluster_refcount`, for the linked block at `offset`. -/
def updateBlock (q : Qcow) (offset clustIdx : UInt64) (append : UInt16) :
    Except Fault (Bool × Qcow) :=
  match lookup RefcountBlock.offset offset q.rfCache with
  | none => .error .freed
  | some rfb =>
      let index := rfbIndex q clustIdx
      if rfb.size ≤ index then .ok (false, q)
      else
        let refcount := rfb.entries index + append
        match writeRefcountBlock q { rfb with
          dirty := true
          entries := fun i => if i = index then refcount else rfb.entries i } with
        | (false, rfb, q) => .ok (false, setBlock q rfb)
        | (true, rfb, q) =>
            let q := setBlock q rfb
            .ok (true, if refcount = 0 ∧ clustIdx < q.freeClustIdx
              then { q with freeClustIdx := clustIdx } else q)

def updateClusterRefcount (m : Machine) : Nat → Update
  | 0, _, _, _ => .error .endless
  | fuel + 1, q, clustIdx, append =>
      match qcowReadRefcountBlock m q clustIdx with
      | (.found rfb, q) => updateBlock q rfb.offset clustIdx append
      | (.failed, q) => .ok (false, q)
      | (.absent, q) => do
          let (grown, q) ← qcowGrowRefcountBlock m (updateClusterRefcount m fuel) q clustIdx
          match grown with
          | none => .ok (false, q)
          | some offset => updateBlock q offset clustIdx append

def qcowAllocClusters (m : Machine) (q : Qcow) (size : Nat) (updateRef : Bool) :
    Except Fault (UInt64 × Qcow) :=
  allocClusters m (updateClusterRefcount m m.fuel) q size updateRef

def freeEach (m : Machine) : Nat → Qcow → UInt64 → UInt64 → Except Fault Qcow
  | 0, _, _, _ => .error .endless
  | fuel + 1, q, offset, stop =>
      if offset ≤ stop then do
        let (_, q) ← updateClusterRefcount m m.fuel q
          (offset >>> UInt64.ofNat q.header.clusterBits) (-1)
        freeEach m fuel q (offset + UInt64.ofNat q.clusterSize) stop
      else .ok q

def qcowFreeClusters (m : Machine) (q : Qcow) (clustStart size : UInt64) : Except Fault Qcow :=
  let mask := ~~~(UInt64.ofNat q.clusterSize - 1)
  freeEach m m.fuel q (clustStart &&& mask) ((clustStart + size - 1) &&& mask)

/-! The level 2 table of a write. -/

def setL1Entry (q : Qcow) (index : Nat) (entry : UInt64) : Qcow :=
  { q with l1Table := fun i => if i = index then entry else q.l1Table i }

/-- The table is a node of its own only if there was none before. -/
def moveTable (m : Machine) (q : Qcow) (l1tIdx l2tIdx : Nat) (l2tOffset l2tNewOffset : UInt64) :
    Except Fault (Option (UInt64 × Nat) × Qcow) :=
  let size := UInt64.ofNat q.clusterSize
  if l2tOffset = 0 then
    match qcowL2CacheWrite q ⟨l2tNewOffset, true, fun _ => 0⟩ with
    | (false, _, q) => do
        let q ← qcowFreeClusters m q l2tNewOffset size
        .ok (none, q)
    | (true, l2t, q) =>
        match qcowWriteL1Table
            (setL1Entry (cacheTable q l2t) l1tIdx (l2tNewOffset ||| qcow2OflagCopied)) with
        | (false, _) => .error .freed
        | (true, q) => do
            let q ← qcowFreeClusters m q l2tOffset size
            .ok (some (l2t.offset, l2tIdx), q)
  else
    match qcowReadL2Table q l2tOffset with
    | (none, q) => do
        let q ← qcowFreeClusters m q l2tNewOffset size
        .ok (none, q)
    | (some l2t, q) =>
        match qcowL2CacheWrite q { l2t with dirty := true } with
        | (false, _, _) => .error .freed
        | (true, _, _) => .error .relinked

/-- The offset of the linked node and the index of the entry, `none` for -1. -/
def getClusterTable (m : Machine) (q : Qcow) (offset : UInt64) :
    Except Fault (Option (UInt64 × Nat) × Qcow) := do
  let l1tIdx := getL1Index q offset
  let l2tIdx := getL2Index q offset
  if q.tableSize ≤ l1tIdx then .ok (none, q)
  else if q.l2tSize ≤ l2tIdx then .ok (none, q)
  else
    let l2tOffset := q.l1Table l1tIdx
    if l2tOffset &&& qcow2OflagCopied ≠ 0 then
      match qcowReadL2Table q (l2tOffset &&& ~~~qcow2OflagCopied) with
      | (none, q) => .ok (none, q)
      | (some l2t, q) => .ok (some (l2t.offset, l2tIdx), q)
    else
      let (l2tNewOffset, q) ← qcowAllocClusters m q (8 * q.l2tSize) true
      -- The source takes the offset of a new cluster for the error, and the error for an offset.
      if l2tNewOffset ≠ -1 then .ok (none, q)
      else moveTable m q l1tIdx l2tIdx l2tOffset l2tNewOffset

/-! One cluster. -/

def freeOld (m : Machine) (q : Qcow) (clustStart clustFlags : UInt64) : Except Fault Qcow :=
  if clustFlags &&& qcow2OflagCompressed ≠ 0 then
    let csizeShift := 62 - (q.header.clusterBits - 8)
    let size := (clustStart.toNat / 2 ^ csizeShift % 2 ^ (q.header.clusterBits - 8) + 1) * 512
    let mask := UInt64.ofNat (2 ^ csizeShift - 1)
    qcowFreeClusters m q (clustStart &&& mask &&& ~~~511) (UInt64.ofNat size)
  else if clustStart ≠ 0 then qcowFreeClusters m q clustStart (UInt64.ofNat q.clusterSize)
  else .ok q

/-- The whole cluster with `src` in it goes to its new place. -/
def storeCopy (m : Machine) (q : Qcow) (table : UInt64) (l2tIdx : Nat)
    (clustNewStart clustStart clustFlags : UInt64) (clustOff : Nat) (src : List UInt8) :
    Except Fault (Option Nat × Qcow) :=
  let q := { q with copyBuff := writeRange q.copyBuff clustOff src }
  let failed (q : Qcow) : Except Fault (Option Nat × Qcow) := do
    let q ← qcowFreeClusters m q clustNewStart (UInt64.ofNat q.clusterSize)
    .ok (none, q)
  match pwriteInFull q.disk (readRange q.copyBuff 0 q.clusterSize) clustNewStart with
  | (false, disk) => failed { q with disk := disk }
  | (true, disk) =>
      match lookup L2Table.offset table q.l2Cache with
      | none => .error .freed
      | some l2t =>
          match qcowL2CacheWrite { q with disk := disk } { l2t with
            dirty := true
            table := fun i => if i = l2tIdx then clustNewStart ||| qcow2OflagCopied
              else l2t.table i } with
          | (false, l2t, q) => failed (setTable q l2t)
          | (true, l2t, q) => do
              let q ← freeOld m (setTable q l2t) clustStart clustFlags
              .ok (some src.length, q)

/-- The branch of `qcow_write_cluster` for a cluster without the flag COPIED. -/
def copyCluster (m : Machine) (q : Qcow) (table : UInt64) (l2tIdx : Nat) (offset : UInt64)
    (clustStart clustFlags : UInt64) (clustOff : Nat) (src : List UInt8) :
    Except Fault (Option Nat × Qcow) := do
  let (clustNewStart, q) ← qcowAllocClusters m q q.clusterSize true
  -- The same inverted test.
  if clustNewStart ≠ -1 then .ok (none, q)
  else if clustStart ≠ 0 then
    let start := offset &&& ~~~(UInt64.ofNat q.clusterSize - 1)
    match qcow2ReadCluster q start q.clusterSize with
    | (.wild, _) => .error .overrun
    | (.error, q) => do
        let q ← qcowFreeClusters m q clustNewStart (UInt64.ofNat q.clusterSize)
        .ok (none, q)
    | (read, q) =>
        storeCopy m { q with copyBuff := ClusterRead.store q.copyBuff 0 read } table l2tIdx
          clustNewStart clustStart clustFlags clustOff src
  else
    storeCopy m { q with
      copyBuff := writeRange q.copyBuff 0 (List.replicate q.clusterSize 0) } table l2tIdx
      clustNewStart clustStart clustFlags clustOff src

/-- How many bytes of `buf` were written, `none` for -1. -/
def qcowWriteCluster (m : Machine) (q : Qcow) (offset : UInt64) (buf : List UInt8) :
    Except Fault (Option Nat × Qcow) := do
  let clustOff := getClusterOffset q offset
  if q.clusterSize ≤ clustOff then .ok (none, q)
  else
    let src := buf.take (min (q.clusterSize - clustOff) buf.length)
    let (got, q) ← getClusterTable m q offset
    match got with
    | none => .ok (none, q)
    | some (table, l2tIdx) =>
        match lookup L2Table.offset table q.l2Cache with
        | none => .error .freed
        | some l2t =>
            let entry := l2t.table l2tIdx
            let clustFlags := entry &&& (qcow2OflagCopied ||| qcow2OflagCompressed)
            let clustStart := entry &&& qcow2OffsetMask
            if clustFlags &&& qcow2OflagCopied = 0 then
              copyCluster m q table l2tIdx offset clustStart clustFlags clustOff src
            else
              match pwriteInFull q.disk src (clustStart + UInt64.ofNat clustOff) with
              | (false, disk) => .ok (none, { q with disk := disk })
              | (true, disk) => .ok (some src.length, { q with disk := disk })

/-! A write. -/

-- Every turn but the last one writes a byte.
def writeSectorLoop (m : Machine) :
    Nat → Qcow → UInt64 → List UInt8 → Nat → Except Fault (Int × Qcow)
  | 0, q, _, _, nrWritten => .ok (nrWritten, q)
  | turns + 1, q, offset, buf, nrWritten =>
      if buf = [] then .ok (nrWritten, q)
      else if q.header.size ≤ offset then .ok (-1, q)
      else do
        let (nr, q) ← qcowWriteCluster m q offset buf
        match nr with
        | none => .ok (-1, q)
        | some nr =>
            writeSectorLoop m turns q (offset + UInt64.ofNat nr) (buf.drop nr) (nrWritten + nr)

def qcowWriteSectorSingle (m : Machine) (q : Qcow) (sector : UInt64) (src : List UInt8) :
    Except Fault (Int × Qcow) :=
  writeSectorLoop m src.length q (sector <<< sectorShift) src 0

def writeEach (m : Machine) :
    List Range → Qcow → (Nat → UInt8) → UInt64 → Int → Except Fault (Int × Qcow)
  | [], q, _, _, total => .ok (total, q)
  | entry :: rest, q, memory, sector, total => do
      let src := readRange memory entry.base (UInt32.ofNat entry.len).toNat
      let (nr, q) ← qcowWriteSectorSingle m q sector src
      if nr ≠ entry.len then .ok (-1, q)
      else writeEach m rest q memory (sector + UInt64.ofNat (entry.len / 512)) (total + nr)

def qcowWriteSector (m : Machine) (q : Qcow) (memory : Nat → UInt8) (sector : UInt64)
    (iov : List Range) : Except Fault (Int × Qcow) :=
  writeEach m iov q memory sector 0

end VirtioDisk.QcowWrite
