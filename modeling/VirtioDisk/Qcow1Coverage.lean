import VirtioDisk.QcowImage

/-!
The size of the level 1 table of a version 1 image, which the header does not
hold: `qcow1_read_header` computes it from the size of the image.
-/

namespace VirtioDisk.Qcow1Coverage

open QcowImage RawImage ReadWrite
open QcowRead (be64 qcow1Version)

/-- The fields of `qcow1_header_disk` that are used, in the order of the CPU. -/
structure HeaderDisk where
  size : UInt64
  clusterBits : UInt8
  l2Bits : UInt8
  l1TableOffset : UInt64

/-- A short read leaves the end of the structure as it was on the stack. -/
def headerDisk (stack bytes : List UInt8) : HeaderDisk :=
  let whole := bytes ++ stack.drop bytes.length
  ⟨be64 whole 3, whole.getD 32 0, whole.getD 33 0, be64 whole 5⟩

inductive ProbeFault where
  | overflow
  | divisionByZero
  | rejected
  deriving DecidableEq

/-- `1 << bits` in an `int`. -/
def intShift (bits : UInt8) : Except ProbeFault Nat :=
  if 2 ^ bits.toNat < 2 ^ 31 then .ok (2 ^ bits.toNat) else .error .overflow

def intMul (first second : Nat) : Except ProbeFault Nat :=
  if first * second < 2 ^ 31 then .ok (first * second) else .error .overflow

/-- The quotient is computed in a `u64` and kept in a `u32`. -/
def l1Size (f : HeaderDisk) : Except ProbeFault UInt32 := do
  let divisor ← intMul (← intShift f.l2Bits) (← intShift f.clusterBits)
  if divisor = 0 then .error .divisionByZero
  else .ok (f.size / UInt64.ofNat divisor).toUInt32

def qcow1Header (f : HeaderDisk) : Except ProbeFault Header := do
  let l1Size ← l1Size f
  .ok ⟨f.size, f.l1TableOffset, l1Size, f.clusterBits.toNat, f.l2Bits.toNat, 0, 0⟩

def qcow1ReadHeader (stack : List UInt8) (disk : ImageFile) :
    Except ProbeFault (Header × ImageFile) :=
  match preadInFull disk 48 0 with
  | (none, _) => .error .rejected
  | (some bytes, disk) => do
      let header ← qcow1Header (headerDisk stack bytes)
      .ok (header, disk)

/-- What `qcow1_probe` has filled in before it reads the level 1 table. -/
def qcow1Fields (header : Header) (disk : ImageFile) : Qcow where
  version := qcow1Version
  header := header
  tableSize := 0
  l1Table := fun _ => 0
  l2Cache := []
  rfSize := 0
  rfTable := fun _ => 0
  rfCache := []
  freeClustIdx := 0
  copyBuff := fun _ => 0
  disk := disk

def qcow1Probe (stack : List UInt8) (disk : ImageFile) : Except ProbeFault Qcow := do
  let (header, disk) ← qcow1ReadHeader stack disk
  let (loaded, q) := qcowReadL1Table (qcow1Fields header disk)
  if loaded then .ok q else .error .rejected

/-- The table has an entry for every byte of the image. -/
def Covered (q : Qcow) : Prop :=
  ∀ offset, offset < q.header.size → getL1Index q offset < q.tableSize

/-- What the probe owes an image that it does not reject. -/
def Covers : Except ProbeFault Qcow → Prop
  | .error _ => False
  | .ok q => Covered q

/-- How many bytes of the image one level 2 table describes. -/
def l2Coverage (f : HeaderDisk) : Nat := 2 ^ (f.l2Bits.toNat + f.clusterBits.toNat)

/-- The image consists of whole ranges of level 2 tables, whose size is an `int`
and whose number is a `u32`. -/
def Divides (f : HeaderDisk) : Prop :=
  f.l2Bits.toNat + f.clusterBits.toNat ≤ 30 ∧
    l2Coverage f ∣ f.size.toNat ∧ f.size.toNat / l2Coverage f < 2 ^ 32

variable {f : HeaderDisk}

theorem int_shift_fits {bits : UInt8} (fits : bits.toNat ≤ 30) :
    intShift bits = .ok (2 ^ bits.toNat) :=
  if_pos (Nat.pow_lt_pow_right (by decide) (Nat.lt_succ_of_le fits))

theorem int_shift_overflows {bits : UInt8} (wide : ¬ bits.toNat ≤ 30) :
    intShift bits = .error .overflow := by
  apply if_neg
  rw [Nat.not_lt]
  exact Nat.pow_le_pow_right (by decide) (Nat.not_le.mp wide)

theorem coverage_small (fits : f.l2Bits.toNat + f.clusterBits.toNat ≤ 30) :
    l2Coverage f < 2 ^ 31 :=
  Nat.pow_lt_pow_right (by decide) (Nat.lt_succ_of_le fits)

theorem l1_size_fits (fits : f.l2Bits.toNat + f.clusterBits.toNat ≤ 30) :
    l1Size f = .ok (f.size / UInt64.ofNat (l2Coverage f)).toUInt32 := by
  have product : 2 ^ f.l2Bits.toNat * 2 ^ f.clusterBits.toNat = l2Coverage f :=
    (Nat.pow_add ..).symm
  have positive : l2Coverage f ≠ 0 := Nat.ne_of_gt (Nat.two_pow_pos _)
  have l2 := int_shift_fits (Nat.le_trans (Nat.le_add_right _ f.clusterBits.toNat) fits)
  have cluster := int_shift_fits (Nat.le_trans (Nat.le_add_left _ f.l2Bits.toNat) fits)
  rw [l1Size, l2, cluster]
  simp only [bind, Except.bind, intMul, product, if_pos (coverage_small fits), if_neg positive]

theorem l1_size_overflows (wide : ¬ f.l2Bits.toNat + f.clusterBits.toNat ≤ 30) :
    l1Size f = .error .overflow := by
  rw [l1Size]
  by_cases l2 : f.l2Bits.toNat ≤ 30
  · rw [int_shift_fits l2]
    by_cases cluster : f.clusterBits.toNat ≤ 30
    · rw [int_shift_fits cluster]
      have large : ¬ 2 ^ f.l2Bits.toNat * 2 ^ f.clusterBits.toNat < 2 ^ 31 := by
        rw [← Nat.pow_add, Nat.not_lt]
        exact Nat.pow_le_pow_right (by decide) (Nat.not_le.mp wide)
      simp only [bind, Except.bind, intMul, if_neg large]
    · rw [int_shift_overflows cluster]
      rfl
  · rw [int_shift_overflows l2]
    rfl

/-- The last byte of the image decides. -/
theorem quotient_covers (size unit : Nat) (positive : 0 < unit) :
    (∀ offset, offset < size → offset / unit < size / unit % 2 ^ 32) ↔
      unit ∣ size ∧ size / unit < 2 ^ 32 := by
  constructor
  · intro covered
    cases size with
    | zero => exact ⟨Nat.dvd_zero _, by rw [Nat.zero_div]; decide⟩
    | succ last =>
        have inside := covered last (Nat.lt_succ_self last)
        have kept : (last + 1) / unit % 2 ^ 32 ≤ (last + 1) / unit := Nat.mod_le _ _
        have whole : unit ∣ last + 1 := by
          by_contra remainder
          rw [Nat.succ_div_of_not_dvd remainder] at inside kept
          exact Nat.lt_irrefl _ (Nat.lt_of_lt_of_le inside kept)
        refine ⟨whole, ?_⟩
        rw [Nat.succ_div_of_dvd whole] at inside ⊢
        have bounded : (last / unit + 1) % 2 ^ 32 < 2 ^ 32 := Nat.mod_lt _ (by decide)
        omega
  · rintro ⟨⟨count, rfl⟩, few⟩ offset inside
    rw [Nat.mod_eq_of_lt few, Nat.mul_div_cancel_left _ positive]
    exact Nat.div_lt_of_lt_mul inside

/-- The header as it is read from the file. -/
def probedHeader (stack : List UInt8) (disk : ImageFile) : HeaderDisk :=
  headerDisk stack ((preadInFull disk 48 0).1.getD [])

variable {stack : List UInt8} {disk : ImageFile}

theorem accepted_reads (accepted : qcow1Probe stack disk ≠ .error .rejected) :
    qcow1ReadHeader stack disk =
      (qcow1Header (probedHeader stack disk)).map
        fun header => (header, (preadInFull disk 48 0).2) := by
  rw [qcow1Probe, qcow1ReadHeader] at accepted
  rw [qcow1ReadHeader, probedHeader]
  revert accepted
  generalize preadInFull disk 48 0 = reply
  obtain ⟨bytes, after⟩ := reply
  cases bytes with
  | none => exact fun accepted => absurd rfl accepted
  | some bytes => exact fun _ => rfl

theorem wide_overflows (accepted : qcow1Probe stack disk ≠ .error .rejected)
    (wide : ¬ (probedHeader stack disk).l2Bits.toNat +
      (probedHeader stack disk).clusterBits.toNat ≤ 30) :
    qcow1Probe stack disk = .error .overflow := by
  rw [qcow1Probe, accepted_reads accepted, qcow1Header, l1_size_overflows wide]
  rfl

theorem loaded_table {q : Qcow} (loaded : (qcowReadL1Table q).1 = true) :
    (qcowReadL1Table q).2.header = q.header ∧
      (qcowReadL1Table q).2.tableSize = q.header.l1Size.toNat := by
  rw [qcowReadL1Table] at loaded ⊢
  generalize preadInFull q.disk (8 * q.header.l1Size.toNat) q.header.l1TableOffset = reply
    at loaded
  obtain ⟨bytes, after⟩ := reply
  cases bytes with
  | none => cases loaded
  | some bytes => exact ⟨rfl, rfl⟩

theorem fitting_opens (accepted : qcow1Probe stack disk ≠ .error .rejected)
    {header : Header} (computed : qcow1Header (probedHeader stack disk) = .ok header) :
    ∃ q, qcow1Probe stack disk = .ok q ∧
      q.header = header ∧ q.tableSize = header.l1Size.toNat := by
  have probed : qcow1Probe stack disk =
      if (qcowReadL1Table (qcow1Fields header (preadInFull disk 48 0).2)).1 then
        .ok (qcowReadL1Table (qcow1Fields header (preadInFull disk 48 0).2)).2
      else .error .rejected := by
    rw [qcow1Probe, accepted_reads accepted, computed]
    rfl
  rw [probed] at accepted ⊢
  by_cases loaded : (qcowReadL1Table (qcow1Fields header (preadInFull disk 48 0).2)).1 = true
  · rw [if_pos loaded]
    exact ⟨_, rfl, loaded_table loaded⟩
  · rw [if_neg loaded] at accepted
    exact absurd rfl accepted

def coveredHeader (f : HeaderDisk) : Header where
  size := f.size
  l1TableOffset := f.l1TableOffset
  l1Size := (f.size / UInt64.ofNat (l2Coverage f)).toUInt32
  clusterBits := f.clusterBits.toNat
  l2Bits := f.l2Bits.toNat
  refcountTableOffset := 0
  refcountTableSize := 0

theorem covered_iff {q : Qcow} (header : q.header = coveredHeader f)
    (sized : q.tableSize = (coveredHeader f).l1Size.toNat)
    (fits : f.l2Bits.toNat + f.clusterBits.toNat ≤ 30) :
    Covered q ↔ l2Coverage f ∣ f.size.toNat ∧ f.size.toNat / l2Coverage f < 2 ^ 32 := by
  have whole : (UInt64.ofNat (l2Coverage f)).toNat = l2Coverage f :=
    UInt64.toNat_ofNat_of_lt' (Nat.lt_trans (coverage_small fits) (by decide))
  have entries : q.tableSize = f.size.toNat / l2Coverage f % 2 ^ 32 := by
    rw [sized, coveredHeader, UInt64.toNat_toUInt32, UInt64.toNat_div, whole]
  have index (offset : UInt64) : getL1Index q offset = offset.toNat / l2Coverage f := by
    rw [getL1Index, header]
    rfl
  rw [← quotient_covers f.size.toNat (l2Coverage f) (Nat.two_pow_pos _), Covered]
  simp only [index, entries, header, coveredHeader]
  constructor
  · intro covered offset inside
    have small : offset < 2 ^ 64 := Nat.lt_trans inside f.size.toNat_lt
    have reached := covered (UInt64.ofNat offset) (by
      rw [UInt64.lt_iff_toNat_lt, UInt64.toNat_ofNat_of_lt' small]
      exact inside)
    rwa [UInt64.toNat_ofNat_of_lt' small] at reached
  · intro covered offset inside
    exact covered offset.toNat (UInt64.lt_iff_toNat_lt.mp inside)

/-- The probe computes a size for the level 1 table, and no byte of the image is
beyond it, exactly for these headers. -/
theorem probed_table_covers_iff (stack : List UInt8) (disk : ImageFile)
    (accepted : qcow1Probe stack disk ≠ .error .rejected) :
    Covers (qcow1Probe stack disk) ↔ Divides (probedHeader stack disk) := by
  by_cases fits : (probedHeader stack disk).l2Bits.toNat +
      (probedHeader stack disk).clusterBits.toNat ≤ 30
  · have computed : qcow1Header (probedHeader stack disk) =
        .ok (coveredHeader (probedHeader stack disk)) := by
      rw [qcow1Header, l1_size_fits fits]
      rfl
    obtain ⟨q, opened, header, sized⟩ := fitting_opens accepted computed
    rw [opened]
    apply (covered_iff header sized fits).trans
    exact (and_iff_right fits).symm
  · rw [wide_overflows accepted fits]
    exact iff_of_false id (fun divides => fits divides.1)

theorem opened_accepted {probe : Except ProbeFault Qcow} (opened : probe.toOption.isSome = true) :
    probe ≠ .error .rejected := by
  rintro rfl
  cases opened

/-- An image of 64 KiB times `blocks`, with clusters of 4 KiB, tables of 512 entries
and a level 1 table behind the header. -/
def imageOf (blocks : UInt8) : ImageFile where
  file :=
    { bytes := fun i =>
        [0x51, 0x46, 0x49, 0xfb, 0, 0, 0, 1, 0, 0, 0, 0, 0, 0, 0, 0, 0, 0, 0, 0, 0, 0, 0, 0,
          0, 0, 0, 0, 0, blocks, 0, 0, 12, 9, 0, 0, 0, 0, 0, 0, 0, 0, 0, 0, 0, 0, 0, 48].getD i 0
      size := 64
      fixed := false }
  calls := 0
  host := fun _ => .moves 4096

theorem four_mebibytes_covered : Covers (qcow1Probe [] (imageOf 64)) ↔
    Divides (probedHeader [] (imageOf 64)) :=
  probed_table_covers_iff [] (imageOf 64) (opened_accepted (by decide))

/-- Of 3 MiB only the first two are in the level 1 table. -/
theorem third_mebibyte_refused : ∃ q, qcow1Probe [] (imageOf 48) = .ok q ∧
    q.header.clusterBits = 12 ∧ q.header.l2Bits = 9 ∧ 0x200000 < q.header.size ∧
    ¬ getL1Index q 0x200000 < q.tableSize ∧ (qcow1ReadCluster q 0x200000 512).1 = .error := by
  refine ⟨_, rfl, rfl, rfl, ?_, ?_, rfl⟩
  · decide
  · decide

end VirtioDisk.Qcow1Coverage
