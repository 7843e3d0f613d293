import VirtioDisk.QcowImage
import VirtioDisk.WordMasks

/-!
The descriptors of compressed clusters. A table entry has the offset of the data and
its size in fields that `cluster_bits` divides, and both versions of the format take
them apart in `int` variables: the offset does not survive this from 2 GiB on. The
second version counts sectors, and reads up to twice the size of its buffer.
-/

namespace VirtioDisk.CompressedExtents

open ByteStore QcowImage RawImage WordMasks
open QcowRead (qcow1Version)

/-- What `pread_in_full` and the decompressor are called with: the arguments, as they
leave the variables of type `int`. -/
structure Unpacked where
  offset : UInt64
  count : UInt64
  sectorOffset : UInt64
  csize : UInt64

def qcow1Unpack (clusterBits : Nat) (clustStart : UInt64) : Unpacked :=
  let clusterOffsetMask := UInt64.ofNat (2 ^ (63 - clusterBits)) - 1
  let coffset := throughInt (clustStart &&& clusterOffsetMask)
  let csize := throughInt (clustStart >>> UInt64.ofNat (63 - clusterBits))
  let csize := throughInt (csize &&& (UInt64.ofNat (2 ^ clusterBits) - 1))
  ⟨coffset, csize, 0, csize⟩

def qcow2Unpack (clusterBits : Nat) (clustStart : UInt64) : Unpacked :=
  let csizeShift := 62 - (clusterBits - 8)
  let csizeMask := UInt64.ofNat (2 ^ (clusterBits - 8)) - 1
  let clusterOffsetMask := UInt64.ofNat (2 ^ csizeShift) - 1
  let coffset := throughInt (clustStart &&& clusterOffsetMask)
  let nbCsectors := throughInt (((clustStart >>> UInt64.ofNat csizeShift) &&& csizeMask) + 1)
  let sectorOffset := throughInt (coffset &&& 511)
  let csize := throughInt (nbCsectors * 512 - sectorOffset)
  ⟨coffset &&& ~~~511, nbCsectors * 512, sectorOffset, csize⟩

def unpack (q : Qcow) (entry : UInt64) : Unpacked :=
  if q.version = qcow1Version then qcow1Unpack q.header.clusterBits entry
  else qcow2Unpack q.header.clusterBits entry

/-! What an entry encodes. -/

def sizeShift (q : Qcow) : Nat :=
  if q.version = qcow1Version then 63 - q.header.clusterBits else 62 - (q.header.clusterBits - 8)

def sizeBits (q : Qcow) : Nat :=
  if q.version = qcow1Version then q.header.clusterBits else q.header.clusterBits - 8

def offsetField (q : Qcow) (entry : UInt64) : Nat := entry.toNat % 2 ^ sizeShift q
def sizeField (q : Qcow) (entry : UInt64) : Nat := entry.toNat / 2 ^ sizeShift q % 2 ^ sizeBits q

/-- The compressed data: bytes in the first version, and whole sectors behind the one in
which they begin in the second. -/
def encoded (q : Qcow) (entry : UInt64) : Range :=
  ⟨offsetField q entry,
    if q.version = qcow1Version then sizeField q entry
    else (sizeField q entry + 1) * 512 - offsetField q entry % 512⟩

structure Exact (q : Qcow) (entry : UInt64) : Prop where
  offset : (unpack q entry).offset.toNat =
    if q.version = qcow1Version then offsetField q entry else offsetField q entry / 512 * 512
  fits : (unpack q entry).count.toNat ≤ q.clusterSize
  start : (unpack q entry).offset.toNat + (unpack q entry).sectorOffset.toNat =
    (encoded q entry).base
  length : (unpack q entry).csize.toNat = (encoded q entry).len
  inside : (unpack q entry).sectorOffset.toNat + (unpack q entry).csize.toNat ≤
    (unpack q entry).count.toNat

/-- The offset is one of an `int`, and the sectors fit the buffer `cluster_data`. -/
def Held (q : Qcow) (entry : UInt64) : Prop :=
  offsetField q entry < 2 ^ 31 ∧
    (q.version ≠ qcow1Version → (sizeField q entry + 1) * 512 ≤ q.clusterSize)

section Words
variable {x : UInt64} {bits : Nat}

theorem low_bits (x : UInt64) (narrow : bits < 64) :
    (x &&& (UInt64.ofNat (2 ^ bits) - 1)).toNat = x.toNat % 2 ^ bits := by
  rw [UInt64.toNat_and, power_mask_toNat narrow, Nat.and_two_pow_sub_one_eq_mod]

theorem high_bits (x : UInt64) (narrow : bits < 64) :
    (x >>> UInt64.ofNat bits).toNat = x.toNat / 2 ^ bits := by
  have shift : (UInt64.ofNat bits).toNat % 64 = bits := by
    rw [UInt64.toNat_ofNat']
    omega
  rw [UInt64.toNat_shiftRight, shift, Nat.shiftRight_eq_div_pow]

/-- The sign of the `int` is extended. -/
theorem through_int_toNat (x : UInt64) :
    (throughInt x).toNat = if x.toNat % 2 ^ 32 < 2 ^ 31 then x.toNat % 2 ^ 32
      else 2 ^ 64 - 2 ^ 32 + x.toNat % 2 ^ 32 := by
  have bits : (throughInt x).toBitVec = (x.toBitVec.setWidth 32).signExtend 64 := rfl
  rw [← UInt64.toNat_toBitVec, bits, BitVec.toNat_signExtend, BitVec.toNat_setWidth,
    BitVec.toNat_setWidth, BitVec.msb_eq_decide]
  simp only [BitVec.toNat_setWidth, UInt64.toNat_toBitVec]
  by_cases low : x.toNat % 2 ^ 32 < 2 ^ 31
  · have clear : ¬ 2 ^ (32 - 1) ≤ x.toNat % 2 ^ 32 := by omega
    simp only [if_pos low, clear, decide_false, Bool.false_eq_true, if_false]
    omega
  · have set : 2 ^ (32 - 1) ≤ x.toNat % 2 ^ 32 := by omega
    simp only [if_neg low, set, decide_true, if_true]
    omega

theorem through_small (small : x.toNat < 2 ^ 31) : (throughInt x).toNat = x.toNat := by
  rw [through_int_toNat, if_pos (by omega)]
  omega

theorem through_exact_iff (below : x.toNat < 2 ^ 63) :
    (throughInt x).toNat = x.toNat ↔ x.toNat < 2 ^ 31 := by
  rw [through_int_toNat]
  split <;> omega

theorem sector_start (x : UInt64) : (x &&& ~~~511).toNat = x.toNat - x.toNat % 512 := by
  have mask : (511 : UInt64).toNat = 2 ^ 9 - 1 := rfl
  rw [clear_toNat, mask, Nat.and_two_pow_sub_one_eq_mod]

theorem sector_part (x : UInt64) : (x &&& 511).toNat = x.toNat % 512 := by
  have mask : (511 : UInt64).toNat = 2 ^ 9 - 1 := rfl
  rw [UInt64.toNat_and, mask, Nat.and_two_pow_sub_one_eq_mod]

end Words

section Versions
variable {clusterBits : Nat}

theorem qcow1_count (most : clusterBits ≤ 21) (entry : UInt64) :
    (qcow1Unpack clusterBits entry).count.toNat =
      entry.toNat / 2 ^ (63 - clusterBits) % 2 ^ clusterBits := by
  have word := entry.toNat_lt
  have size : 2 ^ clusterBits ≤ 2 ^ 21 := Nat.pow_le_pow_right (by decide) most
  have high := high_bits entry (by omega : 63 - clusterBits < 64)
  have below : entry.toNat / 2 ^ (63 - clusterBits) < 2 ^ 22 := by
    apply Nat.div_lt_of_lt_mul
    rw [← Nat.pow_add]
    exact Nat.lt_of_lt_of_le word (Nat.pow_le_pow_right (by decide) (by omega))
  have whole := through_small (x := entry >>> UInt64.ofNat (63 - clusterBits)) (by omega)
  have low := low_bits (throughInt (entry >>> UInt64.ofNat (63 - clusterBits)))
    (by omega : clusterBits < 64)
  have short := Nat.mod_lt (entry.toNat / 2 ^ (63 - clusterBits)) (Nat.two_pow_pos clusterBits)
  rw [whole, high] at low
  change (throughInt (_ &&& _)).toNat = _
  rw [through_small (by omega), low]

/-- The fields of the second version, the offset up to its conversion. -/
structure Sectors (clusterBits : Nat) (entry : UInt64) (field size : Nat) : Prop where
  offset : ∃ coffset : UInt64, coffset.toNat = field ∧
    (qcow2Unpack clusterBits entry).offset = throughInt coffset &&& ~~~511
  count : (qcow2Unpack clusterBits entry).count.toNat = (size + 1) * 512
  sectorOffset : (qcow2Unpack clusterBits entry).sectorOffset.toNat = field % 512
  csize : (qcow2Unpack clusterBits entry).csize.toNat = (size + 1) * 512 - field % 512

theorem qcow2_sectors (least : 9 ≤ clusterBits) (most : clusterBits ≤ 21) (entry : UInt64) :
    Sectors clusterBits entry (entry.toNat % 2 ^ (62 - (clusterBits - 8)))
      (entry.toNat / 2 ^ (62 - (clusterBits - 8)) % 2 ^ (clusterBits - 8)) := by
  have sectors : 2 ^ (clusterBits - 8) ≤ 2 ^ 13 := Nat.pow_le_pow_right (by decide) (by omega)
  have below := Nat.mod_lt (entry.toNat / 2 ^ (62 - (clusterBits - 8)))
    (Nat.two_pow_pos (clusterBits - 8))
  generalize size_ : entry.toNat / 2 ^ (62 - (clusterBits - 8)) % 2 ^ (clusterBits - 8) = size
    at below ⊢
  have masked := low_bits entry (by omega : 62 - (clusterBits - 8) < 64)
  have number := low_bits (entry >>> UInt64.ofNat (62 - (clusterBits - 8)))
    (by omega : clusterBits - 8 < 64)
  rw [high_bits entry (by omega), size_] at number
  generalize field_ : entry.toNat % 2 ^ (62 - (clusterBits - 8)) = field at masked ⊢
  have one : (1 : UInt64).toNat = 1 := rfl
  have sector : (512 : UInt64).toNat = 512 := rfl
  have nb : (throughInt (((entry >>> UInt64.ofNat (62 - (clusterBits - 8))) &&&
      (UInt64.ofNat (2 ^ (clusterBits - 8)) - 1)) + 1)).toNat = size + 1 := by
    have sum : (((entry >>> UInt64.ofNat (62 - (clusterBits - 8))) &&&
        (UInt64.ofNat (2 ^ (clusterBits - 8)) - 1)) + 1).toNat = size + 1 := by
      rw [UInt64.toNat_add, number, one]
      omega
    rw [through_small (by omega), sum]
  have count : (qcow2Unpack clusterBits entry).count.toNat = (size + 1) * 512 := by
    change (_ * 512 : UInt64).toNat = _
    rw [UInt64.toNat_mul, nb, sector]
    omega
  have part : (qcow2Unpack clusterBits entry).sectorOffset.toNat = field % 512 := by
    change (throughInt (_ &&& 511)).toNat = _
    have low := sector_part (throughInt (entry &&& (UInt64.ofNat (2 ^ (62 - (clusterBits - 8))) - 1)))
    rw [through_int_toNat, masked] at low
    have same : (throughInt (entry &&& (UInt64.ofNat (2 ^ (62 - (clusterBits - 8))) - 1)) &&&
        511).toNat = field % 512 := by
      rw [low]
      split <;> omega
    rw [through_small (by omega), same]
  refine ⟨⟨_, masked, rfl⟩, count, part, ?_⟩
  have difference : ((qcow2Unpack clusterBits entry).count -
      (qcow2Unpack clusterBits entry).sectorOffset).toNat = (size + 1) * 512 - field % 512 := by
    rw [UInt64.toNat_sub, count, part]
    omega
  change (throughInt ((qcow2Unpack clusterBits entry).count -
    (qcow2Unpack clusterBits entry).sectorOffset)).toNat = _
  rw [through_small (by omega), difference]

end Versions

section Entries
variable {q : Qcow}

theorem first_exact_iff (first : q.version = qcow1Version) (least : 9 ≤ q.header.clusterBits)
    (most : q.header.clusterBits ≤ 21) (entry : UInt64) : Exact q entry ↔ Held q entry := by
  have same : unpack q entry = qcow1Unpack q.header.clusterBits entry := if_pos first
  have count := qcow1_count most entry
  have shift : sizeShift q = 63 - q.header.clusterBits := if_pos first
  have bits : sizeBits q = q.header.clusterBits := if_pos first
  have size : sizeField q entry =
      entry.toNat / 2 ^ (63 - q.header.clusterBits) % 2 ^ q.header.clusterBits := by
    rw [sizeField, shift, bits]
  rw [← size] at count
  have short : sizeField q entry < q.clusterSize := by
    rw [size]
    exact Nat.mod_lt _ (Nat.two_pow_pos _)
  have base : (encoded q entry).base = offsetField q entry := rfl
  have len : (encoded q entry).len = sizeField q entry := if_pos first
  have masked := low_bits entry (by omega : 63 - q.header.clusterBits < 64)
  have field : offsetField q entry = entry.toNat % 2 ^ (63 - q.header.clusterBits) := by
    rw [offsetField, shift]
  rw [← field] at masked
  have below : offsetField q entry < 2 ^ 63 := by
    rw [field]
    apply Nat.lt_of_lt_of_le (Nat.mod_lt _ (Nat.two_pow_pos _))
    exact Nat.pow_le_pow_right (by decide) (by omega)
  have kept := through_exact_iff (x := entry &&& (UInt64.ofNat (2 ^ (63 - q.header.clusterBits)) - 1))
    (by omega)
  rw [masked] at kept
  have offset : (unpack q entry).offset.toNat = offsetField q entry ↔
      offsetField q entry < 2 ^ 31 := by
    rw [same]
    exact kept
  have counts : (unpack q entry).count.toNat = sizeField q entry := by rw [same, count]
  have csize : (unpack q entry).csize.toNat = sizeField q entry := by
    rw [same]
    exact count
  have none : (unpack q entry).sectorOffset.toNat = 0 := by
    rw [same]
    rfl
  constructor
  · intro exact_
    have place := exact_.offset
    rw [if_pos first] at place
    exact ⟨offset.mp place, fun second => absurd first second⟩
  · rintro ⟨small, _⟩
    have place := offset.mpr small
    constructor
    · rw [if_pos first, place]
    · omega
    · rw [place, none, base, Nat.add_zero]
    · rw [csize, len]
    · omega

theorem second_exact_iff (second : q.version ≠ qcow1Version) (least : 9 ≤ q.header.clusterBits)
    (most : q.header.clusterBits ≤ 21) (entry : UInt64) : Exact q entry ↔ Held q entry := by
  have same : unpack q entry = qcow2Unpack q.header.clusterBits entry := if_neg second
  have sectors := qcow2_sectors least most entry
  have shift : sizeShift q = 62 - (q.header.clusterBits - 8) := if_neg second
  have bits : sizeBits q = q.header.clusterBits - 8 := if_neg second
  have field : offsetField q entry = entry.toNat % 2 ^ (62 - (q.header.clusterBits - 8)) := by
    rw [offsetField, shift]
  have size : sizeField q entry = entry.toNat / 2 ^ (62 - (q.header.clusterBits - 8)) %
      2 ^ (q.header.clusterBits - 8) := by
    rw [sizeField, shift, bits]
  rw [← field, ← size] at sectors
  have base : (encoded q entry).base = offsetField q entry := rfl
  have len : (encoded q entry).len = (sizeField q entry + 1) * 512 - offsetField q entry % 512 :=
    if_neg second
  have below : offsetField q entry < 2 ^ 62 := by
    rw [field]
    apply Nat.lt_of_lt_of_le (Nat.mod_lt _ (Nat.two_pow_pos _))
    exact Nat.pow_le_pow_right (by decide) (by omega)
  obtain ⟨coffset, word, place⟩ := sectors.offset
  have started : (unpack q entry).offset.toNat =
      (throughInt coffset).toNat - (throughInt coffset).toNat % 512 := by
    rw [same, place, sector_start]
  have offset : (unpack q entry).offset.toNat = offsetField q entry / 512 * 512 ↔
      offsetField q entry < 2 ^ 31 := by
    rw [started, through_int_toNat, word]
    split <;> omega
  have count := sectors.count
  have part := sectors.sectorOffset
  have csize := sectors.csize
  rw [← same] at count part csize
  constructor
  · intro exact_
    have rounded := exact_.offset
    rw [if_neg second] at rounded
    refine ⟨offset.mp rounded, fun _ => ?_⟩
    rw [← count]
    exact exact_.fits
  · rintro ⟨small, fits⟩
    have rounded := offset.mpr small
    constructor
    · rw [if_neg second, rounded]
    · rw [count]
      exact fits second
    · rw [rounded, part, base]
      omega
    · rw [csize, len]
    · omega

/-- An entry is taken apart exactly, within its buffer, if and only if its offset is one of
an `int` and it has no more sectors than fit the buffer. -/
theorem unpacked_exactly_iff (q : Qcow) (least : 9 ≤ q.header.clusterBits)
    (most : q.header.clusterBits ≤ 21) (entry : UInt64) : Exact q entry ↔ Held q entry := by
  by_cases first : q.version = qcow1Version
  · exact first_exact_iff first least most entry
  · exact second_exact_iff first least most entry

end Entries

/-- An image of the second version with clusters of 64 KiB. -/
def sampleImage : Qcow where
  version := 2
  header := ⟨1048576, 65536, 1, 16, 13, 131072, 1⟩
  tableSize := 1
  l1Table := fun _ => 0
  l2Cache := []
  rfSize := 0
  rfTable := fun _ => 0
  rfCache := []
  freeClustIdx := 0
  copyBuff := fun _ => 0
  disk := { file := { bytes := fun _ => 0, size := 0, fixed := false }, calls := 0,
            host := fun _ => .fails }

def compressedEntry (offset sectors : UInt64) : UInt64 :=
  QcowRead.qcow2OflagCompressed ||| (sectors <<< 54) ||| offset

/-- The first MiB is read as it is encoded. -/
theorem near_cluster_unpacked : Exact sampleImage (compressedEntry 0x100205 3) :=
  (unpacked_exactly_iff sampleImage (by decide) (by decide) _).mpr
    ⟨by decide, fun _ => by decide⟩

/-- A cluster behind 4 GiB is looked for elsewhere, and one of 129 sectors overruns. -/
theorem far_cluster_lost : ¬ Exact sampleImage (compressedEntry 0x100000000 3) ∧
    ¬ Exact sampleImage (compressedEntry 0x100205 128) := by
  constructor
  · intro exact_
    exact absurd exact_.offset (by decide)
  · intro exact_
    exact absurd exact_.fits (by decide)

/-! The read path. -/

theorem mask_ofNat {bits : Nat} (narrow : bits < 64) :
    UInt64.ofNat (2 ^ bits - 1) = UInt64.ofNat (2 ^ bits) - 1 := by
  have small : 2 ^ bits < 2 ^ 64 := Nat.pow_lt_pow_right (by decide) narrow
  apply UInt64.toNat_inj.mp
  rw [power_mask_toNat narrow, UInt64.toNat_ofNat', Nat.mod_eq_of_lt (by omega)]

/-- What `readCompressed` reads is what was unpacked. -/
theorem extent_unpacked (q : Qcow) (least : 9 ≤ q.header.clusterBits)
    (most : q.header.clusterBits ≤ 21) (entry : UInt64) :
    q.format.extent q.header.clusterBits entry =
      ((unpack q entry).offset, (unpack q entry).count.toNat) := by
  by_cases first : q.version = qcow1Version
  · have same : unpack q entry = qcow1Unpack q.header.clusterBits entry := if_pos first
    have format : q.format = qcow1Format := if_pos first
    rw [format, same, qcow1_count most]
    simp only [qcow1Format, qcow1Extent, mask_ofNat (by omega : 63 - q.header.clusterBits < 64)]
    rfl
  · have same : unpack q entry = qcow2Unpack q.header.clusterBits entry := if_neg first
    have format : q.format = qcow2Format := if_neg first
    rw [format, same, (qcow2_sectors least most entry).count]
    simp only [qcow2Format, qcow2Extent,
      mask_ofNat (by omega : 62 - (q.header.clusterBits - 8) < 64)]
    rfl

end VirtioDisk.CompressedExtents
