import VirtioDisk.BlkDevice
import VirtioDisk.ReadWrite

/-!
The image operations of disk/raw.c: reads and writes of a file, and copies from
and to a private mapping of it. `touched` of a mapping is ghost state as that of
a file; the copies do not stop at the end of the mapping.
-/

namespace VirtioDisk.RawImage

open BlkDevice ByteStore DescriptorChain ReadWrite

def sectorShift : UInt64 := 9

/-- An unsigned offset handed over as `off_t`. -/
def offT (offset : UInt64) : Int :=
  if offset.toNat ≤ fileMax then offset.toNat else offset.toNat - 2 ^ 64

def rawImageReadSync : Transfer OpenFile := fun disk bytes sector iov iovcount =>
  preadvInFull disk bytes iov iovcount (offT (sector <<< sectorShift))

def rawImageWriteSync : Transfer OpenFile := fun disk bytes sector iov iovcount =>
  pwritevInFull disk bytes iov iovcount (offT (sector <<< sectorShift))

/-- `disk->priv`: `size` bytes are mapped, what lies behind them belongs to others. -/
structure Mapping where
  bytes : Nat → UInt8
  size : Nat
  touched : List Range

abbrev Memcpy := Mapping → (Nat → UInt8) → Nat → Iovec → Option (Mapping × (Nat → UInt8))

def memcpyOut : Memcpy := fun priv bytes offset entry =>
  match storeTarget entry.iovBase with
  | none => none
  | some target =>
      some ({ priv with touched := priv.touched ++ [⟨offset, entry.iovLen⟩] },
        writeRange bytes target (readRange priv.bytes offset entry.iovLen))

def memcpyIn : Memcpy := fun priv bytes offset entry =>
  match loadTarget entry.iovBase with
  | none => none
  | some source =>
      some ({ priv with
          bytes := writeRange priv.bytes offset (readRange bytes source entry.iovLen)
          touched := priv.touched ++ [⟨offset, entry.iovLen⟩] }, bytes)

/-- The loop of the two mmap operations, `iovcount` more entries to go. -/
def copyEach (memcpy : Memcpy) :
    Nat → List Iovec → Mapping → (Nat → UInt8) → UInt64 → Int → Transferred Mapping
  | 0, _, priv, bytes, _, total => ⟨some total, priv, bytes⟩
  | _ + 1, [], priv, bytes, _, _ => ⟨none, priv, bytes⟩
  | iovcount + 1, entry :: rest, priv, bytes, offset, total =>
      -- A copy of no bytes does not look at its pointers.
      let copied :=
        if entry.iovLen = 0 then some (priv, bytes) else memcpy priv bytes offset.toNat entry
      match copied with
      | none => ⟨none, priv, bytes⟩
      | some (priv, bytes) =>
          copyEach memcpy iovcount rest priv bytes (offset + UInt64.ofNat entry.iovLen)
            (total + entry.iovLen)

-- A negative count is never counted down to zero.
def mmapTransfer (memcpy : Memcpy) : Transfer Mapping := fun priv bytes sector iov iovcount =>
  if iovcount < 0 then ⟨none, priv, bytes⟩
  else copyEach memcpy iovcount.toNat iov priv bytes (sector <<< sectorShift) 0

def rawImageReadMmap : Transfer Mapping := mmapTransfer memcpyOut

def rawImageWriteMmap : Transfer Mapping := mmapTransfer memcpyIn

/-- The operations of the synchronous build for a regular file and a block device. -/
def rawImageRegularOps : DiskImageOperations OpenFile where
  read := some rawImageReadSync
  write := some rawImageWriteSync
  flush := none

def roOps : DiskImageOperations Mapping where
  read := some rawImageReadMmap
  write := some rawImageWriteMmap
  flush := none

def roOpsNowrite : DiskImageOperations OpenFile where
  read := some rawImageReadSync
  write := none
  flush := none

theorem sector_bytes (sector : UInt64) (fits : sector.toNat * 512 ≤ fileMax) :
    (sector <<< sectorShift).toNat = sector.toNat * 512 := by
  unfold fileMax at fits
  simp [sectorShift, UInt64.toNat_shiftLeft, Nat.shiftLeft_eq]
  omega

theorem sector_offset (sector : UInt64) (fits : sector.toNat * 512 ≤ fileMax) :
    offT (sector <<< sectorShift) = (sector.toNat * 512 : Nat) := by
  simp [offT, sector_bytes sector fits, fits]

end VirtioDisk.RawImage
