import VirtioDisk.Qcow1Coverage

/-!
`qcow_probe` of disk/qcow.c on an arbitrary file, from the magic number to the
image. What C leaves undefined in it, a shift or a product that is no `int` and a
division by zero, is a fault; nothing then excludes that an image comes back.
Allocations succeed.
-/

namespace VirtioDisk.QcowProbe

open Qcow1Coverage QcowImage
open QcowRead (be64 qcow1Version)

def qcowMagic : UInt32 := 0x514649fb
def qcow2Version : UInt32 := 2

def be32 (bytes : List UInt8) (index : Nat) : UInt32 :=
  (List.range 4).foldl (fun sum i => sum * 256 + (bytes.getD (4 * index + i) 0).toUInt32) 0

structure Qcow1HeaderDisk extends HeaderDisk where
  magic : UInt32
  version : UInt32
  backingFileOffset : UInt64
  backingFileSize : UInt32
  mtime : UInt32
  cryptMethod : UInt32

structure Qcow2HeaderDisk where
  magic : UInt32
  version : UInt32
  backingFileOffset : UInt64
  backingFileSize : UInt32
  clusterBits : UInt32
  size : UInt64
  cryptMethod : UInt32
  l1Size : UInt32
  l1TableOffset : UInt64
  refcountTableOffset : UInt64
  refcountTableClusters : UInt32
  nbSnapshots : UInt32
  snapshotsOffset : UInt64

def qcow1HeaderSize : Nat := 48
def qcow2HeaderSize : Nat := 72

def qcow1HeaderDisk (stack bytes : List UInt8) : Qcow1HeaderDisk :=
  let whole := bytes ++ stack.drop bytes.length
  { headerDisk stack bytes with
    magic := be32 whole 0
    version := be32 whole 1
    backingFileOffset := be64 whole 1
    backingFileSize := be32 whole 4
    mtime := be32 whole 5
    cryptMethod := be32 whole 9 }

def qcow2HeaderDisk (stack bytes : List UInt8) : Qcow2HeaderDisk :=
  let whole := bytes ++ stack.drop bytes.length
  { magic := be32 whole 0
    version := be32 whole 1
    backingFileOffset := be64 whole 1
    backingFileSize := be32 whole 4
    clusterBits := be32 whole 5
    size := be64 whole 3
    cryptMethod := be32 whole 8
    l1Size := be32 whole 9
    l1TableOffset := be64 whole 5
    refcountTableOffset := be64 whole 6
    refcountTableClusters := be32 whole 14
    nbSnapshots := be32 whole 15
    snapshotsOffset := be64 whole 8 }

def qcow1CheckImage (stack : List UInt8) (disk : ImageFile) : Bool × ImageFile :=
  match preadInFull disk qcow1HeaderSize 0 with
  | (none, disk) => (false, disk)
  | (some bytes, disk) =>
      let f := qcow1HeaderDisk stack bytes
      (f.magic == qcowMagic && f.version == qcow1Version, disk)

def qcow2CheckImage (stack : List UInt8) (disk : ImageFile) : Bool × ImageFile :=
  match preadInFull disk qcow2HeaderSize 0 with
  | (none, disk) => (false, disk)
  | (some bytes, disk) =>
      let f := qcow2HeaderDisk stack bytes
      (f.magic == qcowMagic && f.version == qcow2Version, disk)

/-- Ghost state of an image: what its header has asked for, and how much of that
header is from the file. -/
structure Asked where
  read : Nat
  backingFileOffset : UInt64
  cryptMethod : UInt32

structure Image where
  q : Qcow
  csizeShift : Int
  csizeMask : Nat
  clusterOffsetMask : Nat
  clusterSize : Nat
  asked : Asked

/-- `1 << bits` in a signed type of `width` bits. -/
def leftShift (width : Nat) (bits : Int) : Except ProbeFault Nat :=
  if 0 ≤ bits ∧ bits + 1 < width then .ok (2 ^ bits.toNat) else .error .overflow

def loadedOr (loaded : Bool × Qcow) : Except ProbeFault Qcow :=
  if loaded.1 then .ok loaded.2 else .error .rejected

/-- What `qcow1_probe` does with the header it has read. -/
def qcow1Open (f : Qcow1HeaderDisk) (read : Nat) (disk : ImageFile) :
    Except ProbeFault Image := do
  let header ← qcow1Header f.toHeaderDisk
  let clusterSize ← leftShift 32 header.clusterBits
  let offsets ← leftShift 64 (63 - (header.clusterBits : Int))
  let q ← loadedOr (qcowReadL1Table (qcow1Fields header disk))
  .ok
    { q := q
      csizeShift := 0
      csizeMask := 0
      clusterOffsetMask := offsets - 1
      clusterSize := clusterSize
      asked := ⟨read, f.backingFileOffset, f.cryptMethod⟩ }

def qcow1Probe (stack : List UInt8) (disk : ImageFile) : Except ProbeFault Image :=
  match preadInFull disk qcow1HeaderSize 0 with
  | (none, _) => .error .rejected
  | (some bytes, disk) => qcow1Open (qcow1HeaderDisk stack bytes) bytes.length disk

-- The bits of the header are cut to a `u8` each.
def qcow2Header (f : Qcow2HeaderDisk) : Header where
  size := f.size
  l1TableOffset := f.l1TableOffset
  l1Size := f.l1Size
  clusterBits := f.clusterBits.toUInt8.toNat
  l2Bits := (f.clusterBits - 3).toUInt8.toNat
  refcountTableOffset := f.refcountTableOffset
  refcountTableSize := f.refcountTableClusters

/-- What `qcow2_probe` has filled in before it reads the tables. -/
def qcow2Fields (header : Header) (disk : ImageFile) : Qcow :=
  { qcow1Fields header disk with version := qcow2Version }

/-- The product is a `u64`, its quotient is kept in a `u32`. -/
def rfTableSize (q : Qcow) : UInt32 :=
  (q.header.refcountTableSize.toUInt64 * UInt64.ofNat q.clusterSize / 8).toUInt32

def qcowReadRefcountTable (q : Qcow) : Bool × Qcow :=
  let size := (rfTableSize q).toNat
  match preadInFull q.disk (8 * size) q.header.refcountTableOffset with
  | (none, disk) => (false, { q with disk := disk })
  | (some bytes, disk) =>
      (decide (0 ≤ (UInt32.ofNat bytes.length).toInt32),
        { q with disk := disk, rfSize := size, rfTable := be64 bytes })

/-- What `qcow2_probe` does with the header it has read. -/
def qcow2Open (f : Qcow2HeaderDisk) (read : Nat) (disk : ImageFile) :
    Except ProbeFault Image := do
  let header := qcow2Header f
  let csizeShift : Int := 62 - ((header.clusterBits : Int) - 8)
  let csizes ← leftShift 32 ((header.clusterBits : Int) - 8)
  let offsets ← leftShift 64 csizeShift
  let clusterSize ← leftShift 32 header.clusterBits
  let q ← loadedOr (qcowReadL1Table (qcow2Fields header disk))
  let q ← loadedOr (qcowReadRefcountTable q)
  .ok
    { q := q
      csizeShift := csizeShift
      csizeMask := csizes - 1
      clusterOffsetMask := offsets - 1
      clusterSize := clusterSize
      asked := ⟨read, f.backingFileOffset, f.cryptMethod⟩ }

def qcow2Probe (stack : List UInt8) (disk : ImageFile) : Except ProbeFault Image :=
  match preadInFull disk qcow2HeaderSize 0 with
  | (none, _) => .error .rejected
  | (some bytes, disk) => qcow2Open (qcow2HeaderDisk stack bytes) bytes.length disk

/-- What lies on the stack where each of three functions reads the header to. -/
structure Stack where
  qcow1CheckImage : List UInt8
  qcow2CheckImage : List UInt8
  readHeader : List UInt8

def qcowProbe (stack : Stack) (disk : ImageFile) : Except ProbeFault Image :=
  let (isQcow1, disk) := qcow1CheckImage stack.qcow1CheckImage disk
  if isQcow1 then qcow1Probe stack.readHeader disk
  else
    let (isQcow2, disk) := qcow2CheckImage stack.qcow2CheckImage disk
    if isQcow2 then qcow2Probe stack.readHeader disk else .error .rejected

/-! What an image must be. -/

/-- A shift by `bits` whose result has its top bit at most at `top`. -/
def InRange (top : Nat) (bits : Int) : Prop := 0 ≤ bits ∧ bits ≤ top

/-- A one is shifted to the left in an `int` up to bit 30 and in a `long long` up to
bit 62; a `u64` can be shifted by 63. -/
structure Usable (image : Image) : Prop where
  l2Entries : InRange 30 image.q.header.l2Bits
  clusterBytes : InRange 30 image.q.header.clusterBits
  l1Index : InRange 63 (image.q.header.l2Bits + image.q.header.clusterBits)
  l2Index : InRange 63 image.q.header.clusterBits
  qcow1Extent : image.q.version = qcow1Version → InRange 62 (63 - image.q.header.clusterBits)
  qcow2Extent : image.q.version = qcow2Version →
    InRange 30 (image.q.header.clusterBits - 8) ∧ InRange 62 image.csizeShift
  refcountIndex : image.q.version = qcow2Version → InRange 63 (image.q.header.clusterBits - 1)
  divisor : image.q.version = qcow1Version →
    0 < 2 ^ image.q.header.l2Bits * 2 ^ image.q.header.clusterBits ∧
      2 ^ image.q.header.l2Bits * 2 ^ image.q.header.clusterBits < 2 ^ 31
  l2Table : 8 * 2 ^ image.q.header.l2Bits < 2 ^ 64
  refcountTable : image.q.version = qcow2Version →
    image.q.header.refcountTableSize.toNat * 2 ^ image.q.header.clusterBits < 2 ^ 64 ∧
      image.q.header.refcountTableSize.toNat * 2 ^ image.q.header.clusterBits / 8 < 2 ^ 32
  whole : image.asked.read =
    if image.q.version = qcow1Version then qcow1HeaderSize else qcow2HeaderSize
  noBackingFile : image.asked.backingFileOffset = 0
  notEncrypted : image.asked.cryptMethod = 0

def Sound : Except ProbeFault Image → Prop
  | .ok image => Usable image
  | .error fault => fault = .rejected

/-! What a file must be. -/

/-- A table of so many entries is read, if only in part. The length is no negative `int`. -/
def TableRead (disk : ImageFile) (entries : Nat) (offset : UInt64) : Prop :=
  ∃ bytes, (preadInFull disk (8 * entries) offset).1 = some bytes ∧ bytes.length % 2 ^ 32 < 2 ^ 31

structure Qcow1Acceptable (f : Qcow1HeaderDisk) (read : Nat) (disk : ImageFile) : Prop where
  clusters : 1 ≤ f.clusterBits.toNat
  tables : f.l2Bits.toNat + f.clusterBits.toNat ≤ 30
  opened : TableRead disk (f.size.toNat / l2Coverage f.toHeaderDisk % 2 ^ 32) f.l1TableOffset →
    read = qcow1HeaderSize ∧ f.backingFileOffset = 0 ∧ f.cryptMethod = 0

/-- The entries of the refcount table. -/
def refcounts (f : Qcow2HeaderDisk) : Nat :=
  f.refcountTableClusters.toNat * 2 ^ f.clusterBits.toUInt8.toNat / 8

structure Qcow2Acceptable (f : Qcow2HeaderDisk) (read : Nat) (disk : ImageFile) : Prop where
  extents : 8 ≤ f.clusterBits.toUInt8.toNat
  clusters : f.clusterBits.toUInt8.toNat ≤ 30
  opened : TableRead disk f.l1Size.toNat f.l1TableOffset →
    TableRead (preadInFull disk (8 * f.l1Size.toNat) f.l1TableOffset).2
      (refcounts f % 2 ^ 32) f.refcountTableOffset →
    read = qcow2HeaderSize ∧ f.backingFileOffset = 0 ∧ f.cryptMethod = 0 ∧ refcounts f < 2 ^ 32

/-- The header that the file has at the last of the calls that read it is acceptable. -/
def Acceptable (stack : Stack) (disk : ImageFile) : Prop :=
  match qcow1CheckImage stack.qcow1CheckImage disk with
  | (true, disk) => ∀ bytes after, preadInFull disk qcow1HeaderSize 0 = (some bytes, after) →
      Qcow1Acceptable (qcow1HeaderDisk stack.readHeader bytes) bytes.length after
  | (false, disk) =>
      match qcow2CheckImage stack.qcow2CheckImage disk with
      | (true, disk) => ∀ bytes after, preadInFull disk qcow2HeaderSize 0 = (some bytes, after) →
          Qcow2Acceptable (qcow2HeaderDisk stack.readHeader bytes) bytes.length after
      | (false, _) => True

theorem left_shift_fits {width : Nat} (bits : Nat) (fits : bits + 1 < width) :
    leftShift width bits = .ok (2 ^ bits) := by
  apply if_pos
  omega

theorem left_shift_or (width : Nat) (bits : Int) :
    leftShift width bits = .ok (2 ^ bits.toNat) ∨ leftShift width bits = .error .overflow := by
  by_cases fits : 0 ≤ bits ∧ bits + 1 < width
  · exact .inl (if_pos fits)
  · exact .inr (if_neg fits)

theorem overflow_unsound : ¬ Sound (.error .overflow) := by
  rw [Sound]
  decide

theorem left_shift_overflows {width : Nat} {bits : Int} (wide : ¬ (0 ≤ bits ∧ bits + 1 < width)) :
    leftShift width bits = .error .overflow :=
  if_neg wide

theorem length_not_negative (length : Nat) :
    0 ≤ (UInt32.ofNat length).toInt32 ↔ length % 2 ^ 32 < 2 ^ 31 := by
  have value : (UInt32.ofNat length).toInt32.toInt =
      if 2 * (length % 2 ^ 32) < 2 ^ 32 then ((length % 2 ^ 32 : Nat) : Int)
      else ((length % 2 ^ 32 : Nat) : Int) - (2 ^ 32 : Nat) := by
    show (UInt32.ofNat length).toBitVec.toInt = _
    rw [BitVec.toInt_eq_toNat_cond]
    simp
  rw [Int32.le_iff_toInt_le, value]
  show (0 : Int) ≤ _ ↔ _
  split <;> omega

/-! The two tables of an image. -/

section Tables

variable {q : Qcow}

theorem l1_table_read : (qcowReadL1Table q).1 = true ↔
    TableRead q.disk q.header.l1Size.toNat q.header.l1TableOffset := by
  rw [qcowReadL1Table, TableRead]
  generalize preadInFull q.disk (8 * q.header.l1Size.toNat) q.header.l1TableOffset = reply
  obtain ⟨bytes, after⟩ := reply
  cases bytes with
  | none => simp
  | some bytes =>
      constructor
      · intro positive
        exact ⟨bytes, rfl, (length_not_negative bytes.length).mp (of_decide_eq_true positive)⟩
      · rintro ⟨_, ⟨⟩, short⟩
        exact decide_eq_true ((length_not_negative bytes.length).mpr short)

theorem l1_table_keeps : (qcowReadL1Table q).2.header = q.header ∧
    (qcowReadL1Table q).2.version = q.version ∧ (qcowReadL1Table q).2.disk =
      (preadInFull q.disk (8 * q.header.l1Size.toNat) q.header.l1TableOffset).2 := by
  rw [qcowReadL1Table]
  generalize preadInFull q.disk (8 * q.header.l1Size.toNat) q.header.l1TableOffset = reply
  obtain ⟨bytes, after⟩ := reply
  cases bytes with
  | none => exact ⟨rfl, rfl, rfl⟩
  | some bytes => exact ⟨rfl, rfl, rfl⟩

theorem refcount_table_read : (qcowReadRefcountTable q).1 = true ↔
    TableRead q.disk (rfTableSize q).toNat q.header.refcountTableOffset := by
  rw [qcowReadRefcountTable, TableRead]
  generalize preadInFull q.disk (8 * (rfTableSize q).toNat) q.header.refcountTableOffset = reply
  obtain ⟨bytes, after⟩ := reply
  cases bytes with
  | none => simp
  | some bytes =>
      constructor
      · intro positive
        exact ⟨bytes, rfl, (length_not_negative bytes.length).mp (of_decide_eq_true positive)⟩
      · rintro ⟨_, ⟨⟩, short⟩
        exact decide_eq_true ((length_not_negative bytes.length).mpr short)

theorem refcount_table_keeps : (qcowReadRefcountTable q).2.header = q.header ∧
    (qcowReadRefcountTable q).2.version = q.version := by
  rw [qcowReadRefcountTable]
  generalize preadInFull q.disk (8 * (rfTableSize q).toNat) q.header.refcountTableOffset = reply
  obtain ⟨bytes, after⟩ := reply
  cases bytes with
  | none => exact ⟨rfl, rfl⟩
  | some bytes => exact ⟨rfl, rfl⟩

end Tables

/-! The first version. -/

section Qcow1

variable {f : Qcow1HeaderDisk} {read : Nat} {disk : ImageFile}

def qcow1Loaded (f : Qcow1HeaderDisk) (disk : ImageFile) : Bool × Qcow :=
  qcowReadL1Table (qcow1Fields (coveredHeader f.toHeaderDisk) disk)

def qcow1Image (f : Qcow1HeaderDisk) (read : Nat) (disk : ImageFile) : Image where
  q := (qcow1Loaded f disk).2
  csizeShift := 0
  csizeMask := 0
  clusterOffsetMask := 2 ^ (63 - f.clusterBits.toNat) - 1
  clusterSize := 2 ^ f.clusterBits.toNat
  asked := ⟨read, f.backingFileOffset, f.cryptMethod⟩

theorem covered_entries (tables : f.l2Bits.toNat + f.clusterBits.toNat ≤ 30) :
    (coveredHeader f.toHeaderDisk).l1Size.toNat =
      f.size.toNat / l2Coverage f.toHeaderDisk % 2 ^ 32 := by
  have whole : (UInt64.ofNat (l2Coverage f.toHeaderDisk)).toNat = l2Coverage f.toHeaderDisk :=
    UInt64.toNat_ofNat_of_lt' (Nat.lt_trans (coverage_small tables) (by decide))
  rw [coveredHeader, UInt64.toNat_toUInt32, UInt64.toNat_div, whole]

theorem qcow1_open_wide (wide : ¬ f.l2Bits.toNat + f.clusterBits.toNat ≤ 30) :
    qcow1Open f read disk = .error .overflow := by
  rw [qcow1Open, qcow1Header, l1_size_overflows wide]
  rfl

theorem qcow1_header_covered (tables : f.l2Bits.toNat + f.clusterBits.toNat ≤ 30) :
    qcow1Header f.toHeaderDisk = .ok (coveredHeader f.toHeaderDisk) := by
  rw [qcow1Header, l1_size_fits tables]
  rfl

-- Clusters of one byte shift a one into the sign of the mask.
theorem qcow1_open_bytes (tables : f.l2Bits.toNat + f.clusterBits.toNat ≤ 30)
    (bytes : f.clusterBits.toNat = 0) : qcow1Open f read disk = .error .overflow := by
  have wide : leftShift 64 (63 - ((coveredHeader f.toHeaderDisk).clusterBits : Int)) =
      .error .overflow := by
    apply left_shift_overflows
    show ¬ (0 ≤ 63 - (f.clusterBits.toNat : Int) ∧ 63 - (f.clusterBits.toNat : Int) + 1 < 64)
    omega
  have clusters : leftShift 32 ((coveredHeader f.toHeaderDisk).clusterBits : Int) = .ok 1 := by
    show leftShift 32 (f.clusterBits.toNat : Int) = .ok 1
    rw [bytes]
    rfl
  rw [qcow1Open, qcow1_header_covered tables]
  simp only [bind, Except.bind, clusters, wide]

theorem qcow1_open_fits (clusters : 1 ≤ f.clusterBits.toNat)
    (tables : f.l2Bits.toNat + f.clusterBits.toNat ≤ 30) :
    qcow1Open f read disk =
      if (qcow1Loaded f disk).1 then .ok (qcow1Image f read disk) else .error .rejected := by
  have bytes : leftShift 32 ((coveredHeader f.toHeaderDisk).clusterBits : Int) =
      .ok (2 ^ f.clusterBits.toNat) :=
    left_shift_fits f.clusterBits.toNat (by omega)
  have offsets : leftShift 64 (63 - ((coveredHeader f.toHeaderDisk).clusterBits : Int)) =
      .ok (2 ^ (63 - f.clusterBits.toNat)) := by
    have same : 63 - ((coveredHeader f.toHeaderDisk).clusterBits : Int) =
        ((63 - f.clusterBits.toNat : Nat) : Int) := by
      show 63 - (f.clusterBits.toNat : Int) = _
      omega
    rw [same]
    exact left_shift_fits _ (by omega)
  rw [qcow1Open, qcow1_header_covered tables]
  simp only [bind, Except.bind, bytes, offsets]
  by_cases loaded : (qcow1Loaded f disk).1 = true
  · have opened : loadedOr (qcow1Loaded f disk) = .ok (qcow1Loaded f disk).2 := if_pos loaded
    rw [if_pos loaded, ← qcow1Loaded, opened]
    rfl
  · have refused : loadedOr (qcow1Loaded f disk) = .error .rejected := if_neg loaded
    rw [if_neg loaded, ← qcow1Loaded, refused]

theorem qcow1_image_usable (clusters : 1 ≤ f.clusterBits.toNat)
    (tables : f.l2Bits.toNat + f.clusterBits.toNat ≤ 30) :
    Usable (qcow1Image f read disk) ↔
      read = qcow1HeaderSize ∧ f.backingFileOffset = 0 ∧ f.cryptMethod = 0 := by
  have kept : (qcow1Image f read disk).q.header = coveredHeader f.toHeaderDisk ∧
      (qcow1Image f read disk).q.version = qcow1Version :=
    ⟨l1_table_keeps.1, l1_table_keeps.2.1⟩
  have l2Bits : (qcow1Image f read disk).q.header.l2Bits = f.l2Bits.toNat :=
    congrArg Header.l2Bits kept.1
  have clusterBits : (qcow1Image f read disk).q.header.clusterBits = f.clusterBits.toNat :=
    congrArg Header.clusterBits kept.1
  have notSecond : (qcow1Image f read disk).q.version ≠ qcow2Version := by
    rw [kept.2]
    decide
  constructor
  · intro usable
    have whole := usable.whole
    rw [if_pos kept.2] at whole
    exact ⟨whole, usable.noBackingFile, usable.notEncrypted⟩
  · rintro ⟨whole, backing, crypt⟩
    have power : 2 ^ f.l2Bits.toNat * 2 ^ f.clusterBits.toNat = l2Coverage f.toHeaderDisk :=
      (Nat.pow_add ..).symm
    constructor
    · rw [l2Bits, InRange]
      omega
    · rw [clusterBits, InRange]
      omega
    · rw [l2Bits, clusterBits, InRange]
      omega
    · rw [clusterBits, InRange]
      omega
    · intro _
      rw [clusterBits, InRange]
      omega
    · exact fun second => absurd second notSecond
    · exact fun second => absurd second notSecond
    · intro _
      rw [l2Bits, clusterBits, power]
      exact ⟨Nat.two_pow_pos _, coverage_small tables⟩
    · rw [l2Bits]
      have small : 2 ^ f.l2Bits.toNat ≤ 2 ^ 30 := Nat.pow_le_pow_right (by decide) (by omega)
      omega
    · exact fun second => absurd second notSecond
    · rw [if_pos kept.2]
      exact whole
    · exact backing
    · exact crypt

theorem qcow1_open_sound : Sound (qcow1Open f read disk) ↔ Qcow1Acceptable f read disk := by
  by_cases tables : f.l2Bits.toNat + f.clusterBits.toNat ≤ 30
  · by_cases clusters : 1 ≤ f.clusterBits.toNat
    · have loads : (qcow1Loaded f disk).1 = true ↔ TableRead disk
          (f.size.toNat / l2Coverage f.toHeaderDisk % 2 ^ 32) f.l1TableOffset := by
        rw [← covered_entries tables]
        exact l1_table_read
      rw [qcow1_open_fits clusters tables]
      by_cases loaded : (qcow1Loaded f disk).1 = true
      · rw [if_pos loaded]
        apply (qcow1_image_usable clusters tables).trans
        exact ⟨fun plain => ⟨clusters, tables, fun _ => plain⟩,
          fun acceptable => acceptable.opened (loads.mp loaded)⟩
      · rw [if_neg loaded]
        apply iff_of_true rfl
        exact ⟨clusters, tables, fun there => absurd (loads.mpr there) loaded⟩
    · rw [qcow1_open_bytes tables (by omega)]
      exact iff_of_false overflow_unsound fun acceptable => clusters acceptable.clusters
  · rw [qcow1_open_wide tables]
    exact iff_of_false overflow_unsound fun acceptable => tables acceptable.tables

end Qcow1

/-! The second version. -/

section Qcow2

variable {f : Qcow2HeaderDisk} {read : Nat} {disk : ImageFile}

def qcow2Loaded (f : Qcow2HeaderDisk) (disk : ImageFile) : Bool × Qcow :=
  qcowReadL1Table (qcow2Fields (qcow2Header f) disk)

def qcow2Image (f : Qcow2HeaderDisk) (read : Nat) (disk : ImageFile) : Image where
  q := (qcowReadRefcountTable (qcow2Loaded f disk).2).2
  csizeShift := 62 - ((f.clusterBits.toUInt8.toNat : Int) - 8)
  csizeMask := 2 ^ (f.clusterBits.toUInt8.toNat - 8) - 1
  clusterOffsetMask := 2 ^ (70 - f.clusterBits.toUInt8.toNat) - 1
  clusterSize := 2 ^ f.clusterBits.toUInt8.toNat
  asked := ⟨read, f.backingFileOffset, f.cryptMethod⟩

/-- A byte less three, where it does not wrap. -/
theorem l2_bits_below (extents : 8 ≤ f.clusterBits.toUInt8.toNat) :
    (qcow2Header f).l2Bits = f.clusterBits.toUInt8.toNat - 3 := by
  have bound := f.clusterBits.toNat_lt
  have low : f.clusterBits.toUInt8.toNat = f.clusterBits.toNat % 2 ^ 8 := UInt32.toNat_toUInt8 _
  show (f.clusterBits - 3).toUInt8.toNat = _
  rw [UInt32.toNat_toUInt8, UInt32.toNat_sub_of_le]
  · show (f.clusterBits.toNat - 3) % 2 ^ 8 = _
    omega
  · rw [UInt32.le_iff_toNat_le]
    show 3 ≤ f.clusterBits.toNat
    omega

theorem rf_table_size (clusters : f.clusterBits.toUInt8.toNat ≤ 30) {q : Qcow}
    (header : q.header = qcow2Header f) : (rfTableSize q).toNat = refcounts f % 2 ^ 32 := by
  have size : q.clusterSize = 2 ^ f.clusterBits.toUInt8.toNat := by
    rw [Qcow.clusterSize, header]
    rfl
  have table : q.header.refcountTableSize = f.refcountTableClusters := by
    rw [header]
    rfl
  have small : 2 ^ f.clusterBits.toUInt8.toNat ≤ 2 ^ 30 :=
    Nat.pow_le_pow_right (by decide) clusters
  have product : f.refcountTableClusters.toNat * 2 ^ f.clusterBits.toUInt8.toNat < 2 ^ 64 := by
    calc f.refcountTableClusters.toNat * 2 ^ f.clusterBits.toUInt8.toNat
        ≤ 2 ^ 32 * 2 ^ 30 :=
          Nat.mul_le_mul (Nat.le_of_lt f.refcountTableClusters.toNat_lt) small
      _ < 2 ^ 64 := by decide
  have word : (UInt64.ofNat (2 ^ f.clusterBits.toUInt8.toNat)).toNat =
      2 ^ f.clusterBits.toUInt8.toNat :=
    UInt64.toNat_ofNat_of_lt' (Nat.lt_of_le_of_lt small (by decide))
  rw [rfTableSize, size, table, UInt64.toNat_toUInt32, UInt64.toNat_div, UInt64.toNat_mul, word,
    UInt32.toNat_toUInt64, Nat.mod_eq_of_lt product]
  rfl

theorem qcow2_open_overflows
    (wide : ¬ (8 ≤ f.clusterBits.toUInt8.toNat ∧ f.clusterBits.toUInt8.toNat ≤ 30)) :
    qcow2Open f read disk = .error .overflow := by
  have bits : (qcow2Header f).clusterBits = f.clusterBits.toUInt8.toNat := rfl
  rw [qcow2Open]
  simp only [bind, Except.bind]
  rcases left_shift_or 32 (((qcow2Header f).clusterBits : Int) - 8) with csizes | csizes
  · have extents : 8 ≤ f.clusterBits.toUInt8.toNat := by
      by_contra short
      rw [left_shift_overflows (by omega)] at csizes
      cases csizes
    have clusters : leftShift 32 ((qcow2Header f).clusterBits : Int) = .error .overflow := by
      apply left_shift_overflows
      omega
    rcases left_shift_or 64 (62 - (((qcow2Header f).clusterBits : Int) - 8)) with offsets | offsets
    · simp only [csizes, offsets, clusters]
    · simp only [csizes, offsets]
  · simp only [csizes]

theorem qcow2_open_fits (extents : 8 ≤ f.clusterBits.toUInt8.toNat)
    (clusters : f.clusterBits.toUInt8.toNat ≤ 30) :
    qcow2Open f read disk =
      if (qcow2Loaded f disk).1 ∧ (qcowReadRefcountTable (qcow2Loaded f disk).2).1 then
        .ok (qcow2Image f read disk)
      else .error .rejected := by
  have csizes : leftShift 32 (((qcow2Header f).clusterBits : Int) - 8) =
      .ok (2 ^ (f.clusterBits.toUInt8.toNat - 8)) := by
    have same : ((qcow2Header f).clusterBits : Int) - 8 =
        ((f.clusterBits.toUInt8.toNat - 8 : Nat) : Int) := by
      show (f.clusterBits.toUInt8.toNat : Int) - 8 = _
      omega
    rw [same]
    exact left_shift_fits _ (by omega)
  have offsets : leftShift 64 (62 - (((qcow2Header f).clusterBits : Int) - 8)) =
      .ok (2 ^ (70 - f.clusterBits.toUInt8.toNat)) := by
    have same : 62 - (((qcow2Header f).clusterBits : Int) - 8) =
        ((70 - f.clusterBits.toUInt8.toNat : Nat) : Int) := by
      show 62 - ((f.clusterBits.toUInt8.toNat : Int) - 8) = _
      omega
    rw [same]
    exact left_shift_fits _ (by omega)
  have bytes : leftShift 32 ((qcow2Header f).clusterBits : Int) =
      .ok (2 ^ f.clusterBits.toUInt8.toNat) :=
    left_shift_fits f.clusterBits.toUInt8.toNat (by omega)
  rw [qcow2Open]
  simp only [bind, Except.bind, csizes, offsets, bytes]
  rw [← qcow2Loaded]
  by_cases first : (qcow2Loaded f disk).1 = true
  · have opened : loadedOr (qcow2Loaded f disk) = .ok (qcow2Loaded f disk).2 := if_pos first
    rw [opened]
    by_cases second : (qcowReadRefcountTable (qcow2Loaded f disk).2).1 = true
    · have counted : loadedOr (qcowReadRefcountTable (qcow2Loaded f disk).2) =
          .ok (qcowReadRefcountTable (qcow2Loaded f disk).2).2 := if_pos second
      rw [if_pos ⟨first, second⟩]
      simp only [counted]
      rfl
    · have refused : loadedOr (qcowReadRefcountTable (qcow2Loaded f disk).2) =
          .error .rejected := if_neg second
      rw [if_neg fun both => second both.2]
      simp only [refused]
  · have refused : loadedOr (qcow2Loaded f disk) = .error .rejected := if_neg first
    rw [if_neg fun both => first both.1, refused]

theorem qcow2_image_usable (extents : 8 ≤ f.clusterBits.toUInt8.toNat)
    (clusters : f.clusterBits.toUInt8.toNat ≤ 30) :
    Usable (qcow2Image f read disk) ↔
      read = qcow2HeaderSize ∧ f.backingFileOffset = 0 ∧ f.cryptMethod = 0 ∧
        refcounts f < 2 ^ 32 := by
  have header : (qcow2Image f read disk).q.header = qcow2Header f :=
    refcount_table_keeps.1.trans l1_table_keeps.1
  have version : (qcow2Image f read disk).q.version = qcow2Version :=
    refcount_table_keeps.2.trans l1_table_keeps.2.1
  have l2Bits : (qcow2Image f read disk).q.header.l2Bits = f.clusterBits.toUInt8.toNat - 3 := by
    rw [header]
    exact l2_bits_below extents
  have clusterBits :
      (qcow2Image f read disk).q.header.clusterBits = f.clusterBits.toUInt8.toNat :=
    congrArg Header.clusterBits header
  have table : (qcow2Image f read disk).q.header.refcountTableSize = f.refcountTableClusters :=
    congrArg Header.refcountTableSize header
  have notFirst : (qcow2Image f read disk).q.version ≠ qcow1Version := by
    rw [version]
    decide
  constructor
  · intro usable
    have whole := usable.whole
    rw [if_neg notFirst] at whole
    have counted := (usable.refcountTable version).2
    rw [table, clusterBits] at counted
    exact ⟨whole, usable.noBackingFile, usable.notEncrypted, counted⟩
  · rintro ⟨whole, backing, crypt, counted⟩
    constructor
    · rw [l2Bits, InRange]
      omega
    · rw [clusterBits, InRange]
      omega
    · rw [l2Bits, clusterBits, InRange]
      omega
    · rw [clusterBits, InRange]
      omega
    · exact fun first => absurd first notFirst
    · intro _
      have shift : (qcow2Image f read disk).csizeShift =
          62 - ((f.clusterBits.toUInt8.toNat : Int) - 8) := rfl
      rw [clusterBits, shift, InRange, InRange]
      omega
    · intro _
      rw [clusterBits, InRange]
      omega
    · exact fun first => absurd first notFirst
    · rw [l2Bits]
      have small : 2 ^ (f.clusterBits.toUInt8.toNat - 3) ≤ 2 ^ 27 :=
        Nat.pow_le_pow_right (by decide) (by omega)
      omega
    · intro _
      rw [table, clusterBits]
      refine ⟨?_, counted⟩
      rw [refcounts] at counted
      omega
    · rw [if_neg notFirst]
      exact whole
    · exact backing
    · exact crypt

theorem qcow2_open_sound : Sound (qcow2Open f read disk) ↔ Qcow2Acceptable f read disk := by
  by_cases geometry : 8 ≤ f.clusterBits.toUInt8.toNat ∧ f.clusterBits.toUInt8.toNat ≤ 30
  · obtain ⟨extents, clusters⟩ := geometry
    have first : (qcow2Loaded f disk).1 = true ↔ TableRead disk f.l1Size.toNat f.l1TableOffset :=
      l1_table_read
    have second : (qcowReadRefcountTable (qcow2Loaded f disk).2).1 = true ↔
        TableRead (preadInFull disk (8 * f.l1Size.toNat) f.l1TableOffset).2
          (refcounts f % 2 ^ 32) f.refcountTableOffset := by
      have kept := @l1_table_keeps (qcow2Fields (qcow2Header f) disk)
      rw [refcount_table_read, qcow2Loaded, rf_table_size clusters kept.1, kept.2.2, kept.1]
      rfl
    rw [qcow2_open_fits extents clusters]
    by_cases loaded : (qcow2Loaded f disk).1 = true ∧
        (qcowReadRefcountTable (qcow2Loaded f disk).2).1 = true
    · rw [if_pos loaded]
      apply (qcow2_image_usable extents clusters).trans
      exact ⟨fun plain => ⟨extents, clusters, fun _ _ => plain⟩,
        fun acceptable => acceptable.opened (first.mp loaded.1) (second.mp loaded.2)⟩
    · rw [if_neg loaded]
      apply iff_of_true rfl
      exact ⟨extents, clusters, fun l1 counts =>
        absurd ⟨first.mpr l1, second.mpr counts⟩ loaded⟩
  · rw [qcow2_open_overflows geometry]
    exact iff_of_false overflow_unsound
      fun acceptable => geometry ⟨acceptable.extents, acceptable.clusters⟩

end Qcow2

theorem qcow1_probe_sound (stack : List UInt8) (disk : ImageFile) :
    Sound (qcow1Probe stack disk) ↔ ∀ bytes after,
      preadInFull disk qcow1HeaderSize 0 = (some bytes, after) →
        Qcow1Acceptable (qcow1HeaderDisk stack bytes) bytes.length after := by
  rw [qcow1Probe]
  generalize preadInFull disk qcow1HeaderSize 0 = reply
  obtain ⟨bytes, after⟩ := reply
  cases bytes with
  | none => exact iff_of_true rfl fun _ _ read => nomatch read
  | some bytes =>
      apply qcow1_open_sound.trans
      constructor
      · rintro acceptable _ _ ⟨⟩
        exact acceptable
      · exact fun acceptable => acceptable bytes after rfl

theorem qcow2_probe_sound (stack : List UInt8) (disk : ImageFile) :
    Sound (qcow2Probe stack disk) ↔ ∀ bytes after,
      preadInFull disk qcow2HeaderSize 0 = (some bytes, after) →
        Qcow2Acceptable (qcow2HeaderDisk stack bytes) bytes.length after := by
  rw [qcow2Probe]
  generalize preadInFull disk qcow2HeaderSize 0 = reply
  obtain ⟨bytes, after⟩ := reply
  cases bytes with
  | none => exact iff_of_true rfl fun _ _ read => nomatch read
  | some bytes =>
      apply qcow2_open_sound.trans
      constructor
      · rintro acceptable _ _ ⟨⟩
        exact acceptable
      · exact fun acceptable => acceptable bytes after rfl

/-- The probe rejects a file or makes a usable image of it exactly for these files. -/
theorem probe_sound_iff (stack : Stack) (disk : ImageFile) :
    Sound (qcowProbe stack disk) ↔ Acceptable stack disk := by
  rw [qcowProbe, Acceptable]
  generalize qcow1CheckImage stack.qcow1CheckImage disk = first
  obtain ⟨isQcow1, disk⟩ := first
  cases isQcow1 with
  | true => exact qcow1_probe_sound stack.readHeader disk
  | false =>
      simp only [Bool.false_eq_true, if_false]
      generalize qcow2CheckImage stack.qcow2CheckImage disk = second
      obtain ⟨isQcow2, disk⟩ := second
      cases isQcow2 with
      | true => exact qcow2_probe_sound stack.readHeader disk
      | false => exact iff_of_true rfl trivial

/-- A file of 72 bytes: an encrypted image with clusters of 64 KiB, whose tables
are where its header is. -/
def encrypted : ImageFile where
  file :=
    { bytes := fun i =>
        [0x51, 0x46, 0x49, 0xfb, 0, 0, 0, 2, 0, 0, 0, 0, 0, 0, 0, 0, 0, 0, 0, 0, 0, 0, 0, 16,
          0, 0, 0, 0, 0, 1, 0, 0, 0, 0, 0, 1, 0, 0, 0, 1, 0, 0, 0, 0, 0, 0, 0, 0,
          0, 0, 0, 0, 0, 0, 0, 0, 0, 0, 0, 1].getD i 0
      size := 72
      fixed := false }
  calls := 0
  host := fun _ => .moves 65536

theorem encrypted_image_returned : ∃ image, qcowProbe ⟨[], [], []⟩ encrypted = .ok image ∧
    image.asked.read = qcow2HeaderSize ∧ image.asked.cryptMethod = 1 ∧ ¬ Usable image := by
  refine ⟨_, rfl, rfl, rfl, fun usable => ?_⟩
  exact absurd usable.notEncrypted (by decide)

end VirtioDisk.QcowProbe
