import VirtioDisk.ReadSoundness

/-!
`qcow_read_sector` goes on by whole sectors from buffer to buffer. It gives the bytes
of the image from the sector on exactly when no buffer but the last one that is not
empty ends inside a sector.
-/

namespace VirtioDisk.SplitReads

open ByteStore QcowCourse QcowImage QcowReference RawImage ReadSoundness ReadWrite ReferenceReads
  SectorSplit
open QcowRead (be64 shifted_toNat)

/-! An image of zeroes with a single one, at any place of the disk. -/

def markedImage (place : Nat) : Qcow where
  version := 2
  header := ⟨0xffffffffffffffff, 0, 128, 30, 27, 0, 0⟩
  tableSize := 128
  l1Table := fun index => if index = place / 2 ^ 57 then 0x80000000 else 0
  l2Cache := []
  rfSize := 0
  rfTable := fun _ => 0
  rfCache := []
  freeClustIdx := 0
  copyBuff := fun _ => 0
  disk := {
    file := {
      bytes := fun i =>
        if i = 2 ^ 31 + 8 * (place / 2 ^ 30 % 2 ^ 27) + 3 ∨ i = 2 ^ 32 + place % 2 ^ 30 then 1
        else 0
      size := 2 ^ 33
      fixed := false }
    calls := 0
    host := fun _ => .moves 4096 }

section Marked
variable {place address : Nat}

theorem marked_table (index : Nat) :
    (markedImage place).l1Table index &&& qcow2Format.l2Mask =
      if index = place / 2 ^ 57 then 0x80000000 else 0 := by
  have entry : (markedImage place).l1Table index =
    if index = place / 2 ^ 57 then 0x80000000 else 0 := rfl
  rw [entry]
  split
  · decide
  · decide

theorem marked_entry {index : Nat} (early : index < 2 ^ 27) :
    storedTable (markedImage place).disk.file (2 ^ 27) (2 ^ 31) index =
      if index = place / 2 ^ 30 % 2 ^ 27 then 0x100000000 else 0 := by
  have bytes : storedTable (markedImage place).disk.file (2 ^ 27) (2 ^ 31) index =
      be64 [0, 0, 0, if index = place / 2 ^ 30 % 2 ^ 27 then 1 else 0, 0, 0, 0, 0] 0 := by
    rw [stored_entry early]
    apply be64_congr
    intro i byte
    have size : (markedImage place).disk.file.size = 2 ^ 33 := rfl
    rw [getD_readRange, if_pos (by omega), cell, if_pos (by omega)]
    simp only [markedImage]
    by_cases mark : i = 3
    · subst mark
      by_cases here : index = place / 2 ^ 30 % 2 ^ 27
      · rw [if_pos (by omega), if_pos here]
        rfl
      · rw [if_neg (by omega), if_neg here]
        rfl
    · rw [if_neg (by omega)]
      have few : i = 0 ∨ i = 1 ∨ i = 2 ∨ i = 4 ∨ i = 5 ∨ i = 6 ∨ i = 7 := by omega
      rcases few with rfl | rfl | rfl | rfl | rfl | rfl | rfl <;> rfl
  rw [bytes]
  split
  · decide
  · decide

theorem marked_located (inside : address < 2 ^ 64) :
    located (markedImage place) address =
      if address / 2 ^ 30 = place / 2 ^ 30 then some (2 ^ 32 + address % 2 ^ 30) else none := by
  have lower : (markedImage place).header.l2Bits = 27 := rfl
  have bits : (markedImage place).header.clusterBits = 30 := rfl
  have format : (markedImage place).format = qcow2Format := rfl
  have size : (markedImage place).tableSize = 128 := rfl
  have entries : (markedImage place).l2tSize = 2 ^ 27 := rfl
  have base : (0x80000000 : UInt64).toNat = 2 ^ 31 := rfl
  have early : address / 2 ^ 30 % 2 ^ 27 < 2 ^ 27 := Nat.mod_lt _ (by decide)
  have table : (0x80000000 : UInt64) ≠ 0 := by decide
  have cluster : (0x100000000 : UInt64) &&& qcow2Format.startMask = 0x100000000 := by decide
  have nothing : (0 : UInt64) &&& qcow2Format.startMask = 0 := by decide
  have start : (0x100000000 : UInt64) ≠ 0 := by decide
  have word : (0x100000000 : UInt64).toNat = 2 ^ 32 := rfl
  simp only [located, lower, bits, format, size, entries, marked_table]
  rw [if_neg (by omega)]
  by_cases same : address / 2 ^ 57 = place / 2 ^ 57
  · simp only [if_pos same, if_neg table, base, marked_entry early]
    by_cases again : address / 2 ^ 30 % 2 ^ 27 = place / 2 ^ 30 % 2 ^ 27
    · simp only [if_pos again, cluster, if_neg start, word]
      rw [if_pos (by omega)]
    · simp only [if_neg again, nothing, if_true]
      rw [if_neg (by omega)]
  · simp only [if_neg same, if_true]
    rw [if_neg (by omega)]

/-- Only at its place the disk is not zero. -/
theorem marked_reference (inside : address < 2 ^ 64) :
    reference (markedImage place) address = if address = place then 1 else 0 := by
  rw [reference, marked_located inside]
  by_cases same : address / 2 ^ 30 = place / 2 ^ 30
  · have size : (markedImage place).disk.file.size = 2 ^ 33 := rfl
    simp only [if_pos same]
    rw [cell, if_pos (by omega)]
    simp only [markedImage]
    by_cases here : address = place
    · rw [if_pos (Or.inr (by rw [here])), if_pos here]
    · rw [if_neg (by omega), if_neg here]
  · simp only [if_neg same]
    rw [if_neg (by rintro rfl; exact same rfl)]

theorem marked_ready (place : Nat) : Ready (markedImage place) := by
  have format : (markedImage place).format = qcow2Format := rfl
  have entries : (markedImage place).l2tSize = 2 ^ 27 := rfl
  have size : (markedImage place).disk.file.size = 2 ^ 33 := rfl
  have clusters : (markedImage place).clusterSize = 2 ^ 30 := rfl
  have base : (0x80000000 : UInt64).toNat = 2 ^ 31 := rfl
  have named (index : Nat)
      (some_ : (markedImage place).l1Table index &&& qcow2Format.l2Mask ≠ 0) :
      (markedImage place).l1Table index &&& qcow2Format.l2Mask = 0x80000000 := by
    rw [marked_table] at some_ ⊢
    split
    · rfl
    · next other => exact absurd (if_neg other) some_
  have bits : (markedImage place).header.clusterBits = 30 := rfl
  constructor
  · rw [bits]
    decide
  · rw [bits]
  · rw [size]
    decide
  · constructor
    · intro index _ some_
      rw [format] at some_ ⊢
      rw [named index some_, entries, size, base]
      decide
    · intro index _ some_ entry early
      rw [format] at some_ ⊢
      rw [entries] at early ⊢
      rw [named index some_, base, marked_entry early]
      split
      · decide
      · decide
    · intro index _ some_ entry early
      rw [format] at some_ ⊢
      rw [entries] at early ⊢
      rw [named index some_, base, marked_entry early, size, clusters]
      split
      · exact fun _ => by decide
      · exact fun other => absurd (by decide) other
  · exact fun _ => ⟨4096, by decide, rfl⟩
  · intro l2t member
    cases member

theorem marked_inside (place : Nat) {start length : Nat} (room : start + length < 2 ^ 64) :
    Inside (markedImage place) start length := by
  have size : (markedImage place).header.size.toNat = 2 ^ 64 - 1 := rfl
  have table : (markedImage place).tableSize = 128 := rfl
  have lower : (markedImage place).header.l2Bits = 27 := rfl
  have bits : (markedImage place).header.clusterBits = 30 := rfl
  constructor
  · rw [size]
    omega
  · rw [table, lower, bits]
    omega

end Marked

/-! All images. -/

/-- The read is of a range of the disk and all of it is read in full, through shifts
that C defines and a cache in which no table came short. -/
structure Served (q : Qcow) (sector : UInt64) (iov : List Range) : Prop where
  shiftable : Shiftable q
  sectors : 9 ≤ q.header.clusterBits
  coherent : Coherent q
  inside : sector.toNat * 512 + total iov ≤ q.header.size.toNat
  delivered : Delivered q sector iov

/-- A call returns its length, and its buffers have the bytes of the image. -/
def Reads (fuel : Nat) (sector : UInt64) (iov : List Range) (q : Qcow) : Prop :=
  ∀ memory, (qcowReadSector fuel q memory sector iov).total = some (total iov : Int) ∧
    (qcowReadSector fuel q memory sector iov).bytes =
      scatter memory iov (readRange (reference q) (sector.toNat * 512) (total iov))

section Splits
variable {fuel : Nat} {q : Qcow} {sector : UInt64} {iov : List Range}

theorem start_bytes (room : sector.toNat * 512 < 2 ^ 64) :
    (sector <<< sectorShift).toNat = sector.toNat * 512 := by
  rw [shifted_toNat]
  omega

theorem served_carries (memory : Nat → UInt8) (short : Described iov) (enough : 2 ^ 32 ≤ fuel)
    (served : Served q sector iov) :
    (qcowReadSector fuel q memory sector iov).total = some (total iov : Int) ∧
      (qcowReadSector fuel q memory sector iov).bytes =
        scatter memory iov (carried 512 (reference q) (sector.toNat * 512) iov) := by
  obtain ⟨after, passed⟩ := served.delivered
  have inside := served.inside
  have narrow := served.shiftable.clusters
  have word := q.header.size.toNat_lt
  have start : (sector <<< sectorShift).toNat = sector.toNat * 512 := start_bytes (by omega)
  have answers := call_answers q memory sector short enough
  rw [passed] at answers
  have filled := (each_carries memory 0 served.sectors (by omega) served.coherent short enough
    (by omega) passed).2
  rw [start] at filled
  exact ⟨answers.1, filled⟩

theorem whole_reads (short : Described iov) (enough : 2 ^ 32 ≤ fuel)
    (served : Served q sector iov) (whole : Whole 512 iov) : Reads fuel sector iov q := by
  intro memory
  rw [← carried_whole _ _ whole]
  exact served_carries memory short enough served

theorem marked_served (place : Nat) (room : sector.toNat * 512 + total iov < 2 ^ 64) :
    Served (markedImage place) sector iov := by
  have ready := marked_ready place
  have start : (sector <<< sectorShift).toNat = sector.toNat * 512 :=
    start_bytes (Nat.lt_of_le_of_lt (Nat.le_add_right _ _) room)
  have inside := marked_inside place room
  have size := inside.size
  rw [← start] at inside
  constructor
  · exact ⟨ready.narrow, (by decide : (27 : Nat) ≤ 30)⟩
  · exact ready.sectors
  · exact ready.coherent
  · exact size
  · exact ready.read_passes inside

/-- The image whose last byte of the range is not zero shows it. -/
theorem broken_reads (short : Described iov) (enough : 2 ^ 32 ≤ fuel)
    (room : sector.toNat * 512 + total iov < 2 ^ 64) (broken : ¬ Whole 512 iov) :
    ¬ Reads fuel sector iov (markedImage (sector.toNat * 512 + total iov - 1)) := by
  intro reads
  have below := reach_le 512 iov
  have lost : reach 512 iov ≠ total iov := fun same => broken ((reach_total_iff iov).mp same)
  obtain ⟨place, last⟩ : ∃ place, place = sector.toNat * 512 + total iov - 1 := ⟨_, rfl⟩
  have some_ : total iov ≠ 0 := by omega
  rw [← last] at reads
  obtain ⟨address, held⟩ := scatter_last (α := UInt8) some_
  have filled := (served_carries (fun _ => 0) short enough (marked_served place room)).2
  have same := congrFun (filled.symm.trans (reads (fun _ => 0)).2) address
  have first := held (fun _ => 0)
    (carried 512 (reference (markedImage place)) (sector.toNat * 512) iov)
    (carried_length _ _ _ _)
  have second := held (fun _ => 0)
    (readRange (reference (markedImage place)) (sector.toNat * 512) (total iov))
    (length_readRange _ _ _)
  obtain ⟨there, under, zero⟩ := carried_below (List.mem_of_getLast? first)
  have one : (readRange (reference (markedImage place)) (sector.toNat * 512)
      (total iov)).getLast? = some 1 := by
    rw [List.getLast?_eq_getElem?, length_readRange, List.getElem?_eq_getElem (by simp; omega),
      getElem_readRange, marked_reference (by omega), if_pos (by omega)]
  rw [marked_reference (by omega), if_neg (by omega)] at zero
  rw [one, ← same, zero] at second
  cases second

end Splits

end VirtioDisk.SplitReads
