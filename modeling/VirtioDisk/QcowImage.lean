import VirtioDisk.LruCache
import VirtioDisk.QcowRead

/-!
The read path of disk/qcow.c with its cache of level 2 tables, over a host that
answers every call of its own accord. As in the module on the bare read path,
compressed clusters cannot be read in this build, numbers of the tables are as
they are after the change of endianness, and allocations succeed. The buffers of
a call are ranges of mapped memory. The shifts by `cluster_bits` are those of a
value that C can shift an `int` by, which what is said of calls asks for.
-/

namespace VirtioDisk.QcowImage

open ByteStore LruCache RawImage ReadWrite
open QcowRead (be64 intOne qcow1Version qcow1OflagCompressed qcow2OflagCopied
  qcow2OflagCompressed qcow2OffsetMask)

/-! The image file. -/

/-- What the host does with one pread, pwrite or fdatasync that it did not interrupt. -/
inductive HostReply where
  | fails
  | moves (most : Nat)
  deriving DecidableEq

structure ImageFile where
  file : File
  calls : Nat
  host : Nat → HostReply

def ImageFile.called (disk : ImageFile) : ImageFile := { disk with calls := disk.calls + 1 }

def xpread (disk : ImageFile) (count offset : Nat) : Option (List UInt8) :=
  match disk.host disk.calls with
  | .fails => none
  | .moves most =>
      some (readRange disk.file.bytes offset (min most (min count (disk.file.size - offset))))

-- Every turn but the last one moves a byte: `count` turns are enough.
def preadLoop : Nat → ImageFile → Nat → Nat → List UInt8 → Option (List UInt8) × ImageFile
  | 0, disk, _, _, total => (some total, disk)
  | turns + 1, disk, count, offset, total =>
      if count = 0 then (some total, disk)
      else
        match xpread disk count offset with
        | none | some [] => (if total = [] then none else some total, disk.called)
        | some bytes =>
            preadLoop turns disk.called (count - bytes.length) (offset + bytes.length)
              (total ++ bytes)

/-- The bytes that were read, `none` for -1. An offset that is no `off_t` is refused. -/
def preadInFull (disk : ImageFile) (count : Nat) (offset : UInt64) :
    Option (List UInt8) × ImageFile :=
  if fileMax < offset.toNat then (if count = 0 then some [] else none, disk)
  else preadLoop count disk count offset.toNat []

/-! The image. -/

structure Header where
  size : UInt64
  l1TableOffset : UInt64
  l1Size : UInt32
  clusterBits : Nat
  l2Bits : Nat
  refcountTableOffset : UInt64
  refcountTableSize : UInt32

structure L2Table where
  offset : UInt64
  dirty : Bool
  table : Nat → UInt64

structure RefcountBlock where
  offset : UInt64
  size : Nat
  dirty : Bool
  entries : Nat → UInt16

structure Qcow where
  version : UInt32
  header : Header
  tableSize : Nat
  l1Table : Nat → UInt64
  l2Cache : List L2Table
  rfSize : Nat
  rfTable : Nat → UInt64
  rfCache : List RefcountBlock
  freeClustIdx : UInt64
  copyBuff : Nat → UInt8
  disk : ImageFile

def maxCacheNodes : Nat := 32

def Qcow.clusterSize (q : Qcow) : Nat := 2 ^ q.header.clusterBits
def Qcow.l2tSize (q : Qcow) : Nat := intOne q.header.l2Bits

def getL1Index (q : Qcow) (offset : UInt64) : Nat :=
  offset.toNat / 2 ^ (q.header.l2Bits + q.header.clusterBits)

def getL2Index (q : Qcow) (offset : UInt64) : Nat :=
  offset.toNat / 2 ^ q.header.clusterBits % intOne q.header.l2Bits

def getClusterOffset (q : Qcow) (offset : UInt64) : Nat :=
  offset.toNat % 2 ^ q.header.clusterBits

-- A short read counts as success and leaves the zeroes of calloc behind it. The
-- result is an `int`: what `pread_in_full` returns is negative from 2 GiB on.
def qcowReadL1Table (q : Qcow) : Bool × Qcow :=
  let size := q.header.l1Size.toNat
  match preadInFull q.disk (8 * size) q.header.l1TableOffset with
  | (none, disk) => (false, { q with disk := disk })
  | (some bytes, disk) =>
      (decide (0 ≤ (UInt32.ofNat bytes.length).toInt32),
        { q with disk := disk, tableSize := size, l1Table := be64 bytes })

def cacheTable (q : Qcow) (c : L2Table) : Qcow :=
  { q with l2Cache := insert maxCacheNodes c q.l2Cache }

def l2TableSearch (q : Qcow) (offset : UInt64) : Option (L2Table × Qcow) :=
  (lookup L2Table.offset offset q.l2Cache).map fun l2t =>
    (l2t, { q with l2Cache := touch L2Table.offset offset q.l2Cache })

def qcowReadL2Table (q : Qcow) (offset : UInt64) : Option L2Table × Qcow :=
  match l2TableSearch q offset with
  | some (l2t, q) => (some l2t, q)
  | none =>
      match preadInFull q.disk (8 * q.l2tSize) offset with
      | (none, disk) => (none, { q with disk := disk })
      | (some bytes, disk) =>
          let l2t := ⟨offset, false, be64 bytes⟩
          (some l2t, cacheTable { q with disk := disk } l2t)

/-- What reading a part of one cluster gives for its destination. `wild` is a
compressed cluster that overran the buffer `cluster_data`. -/
inductive ClusterRead where
  | wild
  | error
  | zero (length : Nat)
  | data (length : Nat) (bytes : List UInt8)

/-- What the two versions of the format differ in. `extent` is where the bytes of
a compressed cluster are and how many of them are read. -/
structure EntryFormat where
  compressed : UInt64
  l2Mask : UInt64
  startMask : UInt64
  extent : Nat → UInt64 → UInt64 × Nat

-- The conversion to an `int` and back to an `off_t`.
def throughInt (offset : UInt64) : UInt64 := offset.toUInt32.toInt32.toInt64.toUInt64

def qcow1Extent (clusterBits : Nat) (entry : UInt64) : UInt64 × Nat :=
  let mask := UInt64.ofNat (2 ^ (63 - clusterBits) - 1)
  (throughInt (entry &&& mask), entry.toNat / 2 ^ (63 - clusterBits) % 2 ^ clusterBits)

def qcow2Extent (clusterBits : Nat) (entry : UInt64) : UInt64 × Nat :=
  let csizeShift := 62 - (clusterBits - 8)
  let mask := UInt64.ofNat (2 ^ csizeShift - 1)
  let nbCsectors := entry.toNat / 2 ^ csizeShift % 2 ^ (clusterBits - 8) + 1
  (throughInt (entry &&& mask) &&& ~~~(511 : UInt64), nbCsectors * 512)

def qcow1Format : EntryFormat := ⟨qcow1OflagCompressed, ~~~0, ~~~0, qcow1Extent⟩

def qcow2Format : EntryFormat :=
  ⟨qcow2OflagCompressed, ~~~qcow2OflagCopied, qcow2OffsetMask, qcow2Extent⟩

-- Without zlib the bytes of a compressed cluster are read and then refused.
def readCompressed (f : EntryFormat) (q : Qcow) (entry : UInt64) : ClusterRead × Qcow :=
  let (offset, count) := f.extent q.header.clusterBits entry
  match preadInFull q.disk count offset with
  | (none, disk) => (.error, { q with disk := disk })
  | (some bytes, disk) =>
      (if q.clusterSize < bytes.length then .wild else .error, { q with disk := disk })

def readPlain (q : Qcow) (clustStart : UInt64) (clustOffset length : Nat) : ClusterRead × Qcow :=
  if clustStart = 0 then (.zero length, q)
  else
    match preadInFull q.disk length (clustStart + UInt64.ofNat clustOffset) with
    | (none, disk) => (.error, { q with disk := disk })
    | (some bytes, disk) => (.data length bytes, { q with disk := disk })

def readCluster (f : EntryFormat) (q : Qcow) (offset : UInt64) (dstLen : Nat) :
    ClusterRead × Qcow :=
  let l1Idx := getL1Index q offset
  let clustOffset := getClusterOffset q offset
  if q.tableSize ≤ l1Idx then (.error, q)
  else if q.clusterSize ≤ clustOffset then (.error, q)
  else
    let length := min (q.clusterSize - clustOffset) dstLen
    let l2tOffset := q.l1Table l1Idx &&& f.l2Mask
    if l2tOffset = 0 then (.zero length, q)
    else
      match qcowReadL2Table q l2tOffset with
      | (none, q) => (.error, q)
      | (some l2t, q) =>
          let l2Idx := getL2Index q offset
          if q.l2tSize ≤ l2Idx then (.error, q)
          else
            let clustStart := l2t.table l2Idx
            if clustStart &&& f.compressed ≠ 0 then readCompressed f q clustStart
            else readPlain q (clustStart &&& f.startMask) clustOffset length

def qcow1ReadCluster : Qcow → UInt64 → Nat → ClusterRead × Qcow := readCluster qcow1Format
def qcow2ReadCluster : Qcow → UInt64 → Nat → ClusterRead × Qcow := readCluster qcow2Format

def Qcow.format (q : Qcow) : EntryFormat :=
  if q.version = qcow1Version then qcow1Format else qcow2Format

def qcowReadCluster (q : Qcow) : UInt64 → Nat → ClusterRead × Qcow :=
  if q.version = qcow1Version then qcow1ReadCluster q else qcow2ReadCluster q

/-- The result of a cluster as the caller keeps it, in a `u32`. -/
def ClusterRead.nr : ClusterRead → UInt32
  | .wild | .error => -1
  | .zero length | .data length _ => UInt32.ofNat length

def ClusterRead.store (memory : Nat → UInt8) (dst : Nat) : ClusterRead → Nat → UInt8
  | .wild | .error => memory
  | .zero length => writeRange memory dst (List.replicate length 0)
  | .data _ bytes => writeRange memory dst bytes

/-- The loop of `qcow_read_sector_single` for the buffer at `dst`. -/
def readSectorLoop (dst : Nat) (dstLen : UInt32) :
    Nat → Qcow → (Nat → UInt8) → Nat → UInt32 → UInt64 → Transferred Qcow
  | 0, q, memory, _, _, _ => ⟨none, q, memory⟩
  | fuel + 1, q, memory, buf, nrRead, sector =>
      if nrRead < dstLen then
        if q.header.size ≤ sector <<< sectorShift then ⟨some (-1), q, memory⟩
        else
          match qcowReadCluster q (sector <<< sectorShift) (dstLen - nrRead).toNat with
          | (.wild, q) => ⟨none, q, memory⟩
          | (read, q) =>
              if read.nr = 0 then ⟨some (-1), q, read.store memory (dst + buf)⟩
              else
                readSectorLoop dst dstLen fuel q (read.store memory (dst + buf))
                  (buf + read.nr.toNat) (nrRead + read.nr) (sector + (read.nr >>> 9).toUInt64)
      else ⟨some dstLen.toNat, q, memory⟩

def qcowReadSectorSingle (fuel : Nat) (q : Qcow) (memory : Nat → UInt8) (sector : UInt64)
    (dst : Nat) (dstLen : UInt32) : Transferred Qcow :=
  readSectorLoop dst dstLen fuel q memory 0 0 sector

def readEach (fuel : Nat) :
    List Range → Qcow → (Nat → UInt8) → UInt64 → Int → Transferred Qcow
  | [], q, memory, _, total => ⟨some total, q, memory⟩
  | entry :: rest, q, memory, sector, total =>
      let read := qcowReadSectorSingle fuel q memory sector entry.base (UInt32.ofNat entry.len)
      match read.total with
      | none => read
      | some nr =>
          if nr ≠ entry.len then ⟨some (-1), read.disk, read.bytes⟩
          else readEach fuel rest read.disk read.bytes
            (sector + UInt64.ofNat (entry.len / 512)) (total + nr)

def qcowReadSector (fuel : Nat) (q : Qcow) (memory : Nat → UInt8) (sector : UInt64)
    (iov : List Range) : Transferred Qcow :=
  readEach fuel iov q memory sector 0

end VirtioDisk.QcowImage
