import VirtioDisk.QcowReference
import VirtioDisk.SectorSplit

/-!
The parts of the clusters that a read asks for, in their order, each with what
became of it. The loops of `qcow_read_sector` follow this course: they fill the
buffers when every part was read in full, but an error of the first part of a
buffer ends the buffer as if it had been filled, and any other error makes them
go on 0x7fffff sectors further, which is noticed only behind the end of the disk.
-/

namespace VirtioDisk.QcowCourse

open ByteStore QcowImage QcowReference RawImage ReadWrite SectorSplit
open QcowRead (part part_cases part_positive part_le shifted_toNat)

/-- How the parts of a range went. Those of a range that was `passed` were all read
in full if it is `whole`; a range that was `stopped` ends the call, which returns -1
if this is `reported`. -/
inductive Course where
  | passed (whole : Bool) (q : Qcow)
  | stopped (reported : Bool) (q : Qcow)

-- Behind its first part a buffer has `begun`.
def bufferCourse : Nat → Qcow → Bool → Bool → UInt64 → Nat → Course
  | 0, q, _, whole, _, _ => .passed whole q
  | turns + 1, q, begun, whole, sector, left =>
      if left = 0 then .passed whole q
      else if q.header.size ≤ sector <<< sectorShift then .stopped true q
      else
        let length := part q.header.clusterBits (sector <<< sectorShift) left
        match qcowReadCluster q (sector <<< sectorShift) left with
        | (.wild, after) => .stopped false after
        | (.error, after) =>
            if begun then .stopped (q.header.size ≤ (sector + 0x7fffff) <<< sectorShift) after
            else .passed false after
        | (read, after) =>
            bufferCourse turns after true
              (whole && tableWhole q (sector <<< sectorShift) &&
                (ClusterRead.delivered read).isSome)
              (sector + UInt64.ofNat (length / 512)) (left - length)

def readCourse : List Range → Qcow → Bool → UInt64 → Course
  | [], q, whole, _ => .passed whole q
  | entry :: rest, q, whole, sector =>
      match bufferCourse entry.len q false whole sector entry.len with
      | .passed whole q => readCourse rest q whole (sector + UInt64.ofNat (entry.len / 512))
      | .stopped reported q => .stopped reported q

/-! One turn of the loop. -/

/-- How far the loop is: `left` bytes of the buffer are still to come. -/
structure Progress (dstLen nrRead : UInt32) (buf left turns fuel : Nat) : Prop where
  sum : nrRead.toNat + left = dstLen.toNat
  place : buf = nrRead.toNat
  course : left ≤ turns
  loop : left < fuel

section Turns
variable {dst : Nat} {dstLen nrRead : UInt32} {buf left turns fuel : Nat} {q after : Qcow}
variable {memory : Nat → UInt8} {sector : UInt64} {begun whole : Bool} {read : ClusterRead}

theorem Progress.more (now : Progress dstLen nrRead buf left turns fuel) (wanted : left ≠ 0) :
    nrRead < dstLen ∧ (dstLen - nrRead).toNat = left := by
  have sum := now.sum
  have less : nrRead < dstLen := by
    rw [UInt32.lt_iff_toNat_lt]
    omega
  constructor
  · exact less
  · rw [UInt32.toNat_sub_of_le _ _ (UInt32.le_of_lt less)]
    omega

theorem Progress.step {length : Nat}
    (now : Progress dstLen nrRead buf left (turns + 1) (fuel + 1)) (some_ : 0 < length)
    (fits : length ≤ left) :
    Progress dstLen (nrRead + UInt32.ofNat length) (buf + length) (left - length) turns fuel := by
  have sum := now.sum
  have bound := dstLen.toNat_lt
  have moved : (nrRead + UInt32.ofNat length).toNat = nrRead.toNat + length := by
    rw [UInt32.toNat_add, UInt32.toNat_ofNat']
    omega
  constructor
  · rw [moved]
    omega
  · rw [moved, now.place]
  · have enough := now.course
    omega
  · have enough := now.loop
    omega

theorem loop_finished (now : Progress dstLen nrRead buf left turns fuel) (none : left = 0) :
    readSectorLoop dst dstLen fuel q memory buf nrRead sector = ⟨some dstLen.toNat, q, memory⟩ := by
  cases fuel with
  | zero => exact absurd now.loop (by omega)
  | succ fuel =>
      have sum := now.sum
      have full : ¬ nrRead < dstLen := by
        rw [UInt32.lt_iff_toNat_lt]
        omega
      rw [readSectorLoop, if_neg full]

theorem loop_outside (now : Progress dstLen nrRead buf left turns (fuel + 1)) (wanted : left ≠ 0)
    (outside : q.header.size ≤ sector <<< sectorShift) :
    readSectorLoop dst dstLen (fuel + 1) q memory buf nrRead sector = ⟨some (-1), q, memory⟩ := by
  rw [readSectorLoop, if_pos (now.more wanted).1, if_pos outside]

theorem loop_wild (now : Progress dstLen nrRead buf left turns (fuel + 1)) (wanted : left ≠ 0)
    (inside : ¬ q.header.size ≤ sector <<< sectorShift)
    (result : qcowReadCluster q (sector <<< sectorShift) left = (.wild, after)) :
    readSectorLoop dst dstLen (fuel + 1) q memory buf nrRead sector = ⟨none, after, memory⟩ := by
  rw [readSectorLoop, if_pos (now.more wanted).1, if_neg inside, (now.more wanted).2, result]

theorem loop_error (now : Progress dstLen nrRead buf left turns (fuel + 1)) (wanted : left ≠ 0)
    (inside : ¬ q.header.size ≤ sector <<< sectorShift)
    (result : qcowReadCluster q (sector <<< sectorShift) left = (.error, after)) :
    readSectorLoop dst dstLen (fuel + 1) q memory buf nrRead sector =
      readSectorLoop dst dstLen fuel after memory (buf + 0xffffffff) (nrRead + (-1))
        (sector + 0x7fffff) := by
  have moving : ClusterRead.error.nr ≠ 0 := by decide
  have far : ClusterRead.error.nr.toNat = 0xffffffff := by decide
  have sectors : (ClusterRead.error.nr >>> 9).toUInt64 = 0x7fffff := by decide
  rw [readSectorLoop, if_pos (now.more wanted).1, if_neg inside, (now.more wanted).2, result]
  simp only [if_neg moving]
  rw [far, sectors]
  simp only [ClusterRead.nr, ClusterRead.store]

/-- A part that is no error is progress by its length, even if it came short. -/
theorem loop_read (now : Progress dstLen nrRead buf left turns (fuel + 1)) (wanted : left ≠ 0)
    (inside : ¬ q.header.size ≤ sector <<< sectorShift)
    (result : qcowReadCluster q (sector <<< sectorShift) left = (read, after))
    (tame : read ≠ .wild) (good : read ≠ .error) :
    readSectorLoop dst dstLen (fuel + 1) q memory buf nrRead sector =
      readSectorLoop dst dstLen fuel after (ClusterRead.store memory (dst + buf) read)
        (buf + part q.header.clusterBits (sector <<< sectorShift) left)
        (nrRead + UInt32.ofNat (part q.header.clusterBits (sector <<< sectorShift) left))
        (sector +
          UInt64.ofNat (part q.header.clusterBits (sector <<< sectorShift) left / 512)) := by
  have positive := part_positive q.header.clusterBits (sector <<< sectorShift)
    (Nat.pos_of_ne_zero wanted)
  have fits := part_le q.header.clusterBits (sector <<< sectorShift) left
  have sum := now.sum
  have bound := dstLen.toNat_lt
  have number : (UInt32.ofNat (part q.header.clusterBits (sector <<< sectorShift) left)).toNat =
      part q.header.clusterBits (sector <<< sectorShift) left := by
    rw [UInt32.toNat_ofNat']
    omega
  have nr : read.nr = UInt32.ofNat (part q.header.clusterBits (sector <<< sectorShift) left) := by
    rcases read_cluster_length result with same | same | same | ⟨bytes, same, _⟩
    · exact absurd same tame
    · exact absurd same good
    · rw [same]
      rfl
    · rw [same]
      rfl
  have moving : read.nr ≠ 0 := by
    intro stuck
    have none := congrArg UInt32.toNat stuck
    rw [nr, number, UInt32.toNat_zero] at none
    omega
  have sectors : (read.nr >>> 9).toUInt64 =
      UInt64.ofNat (part q.header.clusterBits (sector <<< sectorShift) left / 512) := by
    apply UInt64.toNat_inj.mp
    rw [UInt32.toNat_toUInt64, UInt32.toNat_shiftRight, nr, number, UInt64.toNat_ofNat',
      Nat.shiftRight_eq_div_pow]
    have exponent : (9 : UInt32).toNat % 32 = 9 := rfl
    rw [exponent]
    omega
  rw [readSectorLoop, if_pos (now.more wanted).1, if_neg inside, (now.more wanted).2, result]
  cases read with
  | wild => exact absurd rfl tame
  | error => exact absurd rfl good
  | zero length =>
      simp only [if_neg moving]
      rw [sectors, nr, number]
  | data length bytes =>
      simp only [if_neg moving]
      rw [sectors, nr, number]

theorem course_read (wanted : left ≠ 0) (inside : ¬ q.header.size ≤ sector <<< sectorShift)
    (result : qcowReadCluster q (sector <<< sectorShift) left = (read, after))
    (tame : read ≠ .wild) (good : read ≠ .error) :
    bufferCourse (turns + 1) q begun whole sector left =
      bufferCourse turns after true
        (whole && tableWhole q (sector <<< sectorShift) && (ClusterRead.delivered read).isSome)
        (sector + UInt64.ofNat (part q.header.clusterBits (sector <<< sectorShift) left / 512))
        (left - part q.header.clusterBits (sector <<< sectorShift) left) := by
  rw [bufferCourse, if_neg wanted, if_neg inside]
  simp only [result]

end Turns

/-! The whole loop. -/

/-- Nothing was stored outside the ranges. -/
def Confined (before after : Nat → UInt8) (ranges : List Range) : Prop :=
  ∀ address, (∀ range ∈ ranges, ¬ range.Holds address) → after address = before address

/-- The jump behind an error leaves every disk of this size. -/
def Small (q : Qcow) : Prop := q.header.size.toNat ≤ 0x7fffff * 512

/-- What a call returns, given the course of its range. -/
def Answers (small : Prop) (total : Int) (ranges : List Range) (before : Nat → UInt8) :
    Course → Transferred Qcow → Prop
  | .passed _ q, after => after.total = some total ∧ after.disk = q ∧
      Confined before after.bytes ranges
  | .stopped true q, after => after.total = some (-1) ∧ after.disk = q ∧
      Confined before after.bytes ranges
  | .stopped false _, after => small → after.total = none

theorem jump_leaves {q : Qcow} {sector : UInt64} (small : Small q)
    (inside : ¬ q.header.size ≤ sector <<< sectorShift) :
    q.header.size ≤ (sector + 0x7fffff) <<< sectorShift := by
  have few : (0x7fffff : UInt64).toNat = 0x7fffff := rfl
  unfold Small at small
  rw [UInt64.not_le, UInt64.lt_iff_toNat_lt, shifted_toNat] at inside
  rw [UInt64.le_iff_toNat_le, shifted_toNat, UInt64.toNat_add, few]
  omega

section Loop
variable {dst : Nat} {dstLen nrRead : UInt32} {buf left turns fuel : Nat} {q after : Qcow}
variable {before memory : Nat → UInt8} {sector : UInt64} {begun whole : Bool} {read : ClusterRead}

theorem store_confined (confined : Confined before memory [⟨dst, dstLen.toNat⟩])
    (now : Progress dstLen nrRead buf left turns fuel)
    (result : qcowReadCluster q (sector <<< sectorShift) left = (read, after)) :
    Confined before (ClusterRead.store memory (dst + buf) read) [⟨dst, dstLen.toNat⟩] := by
  intro address outside
  have same := confined address outside
  have away : ¬ (dst ≤ address ∧ address < dst + dstLen.toNat) :=
    outside ⟨dst, dstLen.toNat⟩ (by simp)
  have fits := part_le q.header.clusterBits (sector <<< sectorShift) left
  have sum := now.sum
  have place := now.place
  rcases read_cluster_length result with shape | shape | shape | ⟨bytes, shape, short⟩
  · rw [shape]
    exact same
  · rw [shape]
    exact same
  · rw [shape, ← same]
    apply writeRange_outside
    rw [List.length_replicate]
    omega
  · rw [shape, ← same]
    apply writeRange_outside
    omega

/-- An error is taken for progress by 2^32 - 1 bytes. -/
theorem error_answers (now : Progress dstLen nrRead buf left (turns + 1) (fuel + 1))
    (wanted : left ≠ 0)
    (inside : ¬ q.header.size ≤ sector <<< sectorShift)
    (result : qcowReadCluster q (sector <<< sectorShift) left = (.error, after))
    (started : begun = true ↔ 0 < nrRead.toNat)
    (confined : Confined before memory [⟨dst, dstLen.toNat⟩]) :
    Answers (Small q) dstLen.toNat [⟨dst, dstLen.toNat⟩] before
      (bufferCourse (turns + 1) q begun whole sector left)
      (readSectorLoop dst dstLen (fuel + 1) q memory buf nrRead sector) := by
  have kept := read_cluster_kept result
  have sum := now.sum
  have bound := now.loop
  have back : (nrRead + (-1)).toNat = (nrRead.toNat + 0xffffffff) % 2 ^ 32 := by
    rw [UInt32.toNat_add]
    rfl
  rw [loop_error now wanted inside result, bufferCourse, if_neg wanted, if_neg inside]
  simp only [result]
  cases fuel with
  | zero => omega
  | succ fuel =>
      cases begun with
      | false =>
          have first : ¬ 0 < nrRead.toNat := fun some_ => by simp [some_] at started
          have ended : ¬ nrRead + (-1) < dstLen := by
            rw [UInt32.lt_iff_toNat_lt, back]
            have word := dstLen.toNat_lt
            omega
          rw [readSectorLoop, if_neg ended]
          exact ⟨rfl, rfl, confined⟩
      | true =>
          have some_ : 0 < nrRead.toNat := started.mp rfl
          have more : nrRead + (-1) < dstLen := by
            rw [UInt32.lt_iff_toNat_lt, back]
            omega
          by_cases noticed : q.header.size ≤ (sector + 0x7fffff) <<< sectorShift
          · rw [readSectorLoop, if_pos more, kept.header, if_pos noticed]
            simp only [if_true, noticed, decide_true]
            exact ⟨rfl, rfl, confined⟩
          · simp only [if_true, noticed, decide_false]
            exact fun small => absurd (jump_leaves small inside) noticed

theorem loop_answers (now : Progress dstLen nrRead buf left turns fuel)
    (started : begun = true ↔ 0 < nrRead.toNat)
    (confined : Confined before memory [⟨dst, dstLen.toNat⟩]) :
    Answers (Small q) dstLen.toNat [⟨dst, dstLen.toNat⟩] before
      (bufferCourse turns q begun whole sector left)
      (readSectorLoop dst dstLen fuel q memory buf nrRead sector) := by
  induction turns generalizing nrRead buf left fuel q memory sector begun whole with
  | zero =>
      have none : left = 0 := Nat.le_zero.mp now.course
      rw [loop_finished now none]
      exact ⟨rfl, rfl, confined⟩
  | succ turns ih =>
      by_cases none : left = 0
      · rw [loop_finished now none, bufferCourse, if_pos none]
        exact ⟨rfl, rfl, confined⟩
      · cases fuel with
        | zero => exact absurd now.loop (Nat.not_lt_zero _)
        | succ fuel =>
            by_cases outside : q.header.size ≤ sector <<< sectorShift
            · rw [loop_outside now none outside, bufferCourse, if_neg none, if_pos outside]
              exact ⟨rfl, rfl, confined⟩
            · rcases result : qcowReadCluster q (sector <<< sectorShift) left with ⟨read, after⟩
              have kept := read_cluster_kept result
              by_cases tame : read = .wild
              · subst tame
                rw [loop_wild now none outside result, bufferCourse, if_neg none, if_neg outside]
                simp only [result]
                exact fun _ => rfl
              · by_cases good : read = .error
                · subst good
                  exact error_answers now none outside result started confined
                · have positive := part_positive q.header.clusterBits (sector <<< sectorShift)
                    (Nat.pos_of_ne_zero none)
                  have fits := part_le q.header.clusterBits (sector <<< sectorShift) left
                  have next := now.step positive fits
                  have going : true = true ↔ 0 < (nrRead + UInt32.ofNat
                      (part q.header.clusterBits (sector <<< sectorShift) left)).toNat := by
                    have sum := next.sum
                    have place := next.place
                    rw [← place]
                    exact iff_of_true rfl (by omega)
                  rw [loop_read now none outside result tame good,
                    course_read none outside result tame good]
                  have small : Small after = Small q := by rw [Small, Small, kept.header]
                  rw [← small]
                  exact ih next going (store_confined confined now result)

end Loop

/-! All buffers. -/

/-- The length of a buffer is that of a descriptor, a `u32`. -/
def Described (iov : List Range) : Prop := ∀ entry ∈ iov, entry.len < 2 ^ 32

instance (iov : List Range) : Decidable (Described iov) :=
  inferInstanceAs (Decidable (∀ entry ∈ iov, entry.len < 2 ^ 32))

theorem described_word {entry : Range} {rest : List Range} (short : Described (entry :: rest)) :
    (UInt32.ofNat entry.len).toNat = entry.len := by
  have bound := short entry (by simp)
  rw [UInt32.toNat_ofNat']
  omega

section Buffers
variable {fuel : Nat} {q : Qcow} {before memory : Nat → UInt8} {sector : UInt64} {whole : Bool}

theorem start_progress {len : Nat} (short : len < 2 ^ 32) (enough : 2 ^ 32 ≤ fuel) :
    Progress (UInt32.ofNat len) 0 0 len len fuel := by
  have word : (UInt32.ofNat len).toNat = len := by
    rw [UInt32.toNat_ofNat']
    omega
  constructor
  · rw [word, UInt32.toNat_zero]
    omega
  · rfl
  · exact Nat.le_refl len
  · omega

theorem single_answers (q : Qcow) (memory : Nat → UInt8) (sector : UInt64) (whole : Bool)
    {entry : Range} (short : entry.len < 2 ^ 32) (enough : 2 ^ 32 ≤ fuel) :
    Answers (Small q) entry.len [entry] memory
      (bufferCourse entry.len q false whole sector entry.len)
      (qcowReadSectorSingle fuel q memory sector entry.base (UInt32.ofNat entry.len)) := by
  have word : (UInt32.ofNat entry.len).toNat = entry.len := by
    rw [UInt32.toNat_ofNat']
    omega
  have now := start_progress short enough
  have unchanged : Confined memory memory [⟨entry.base, (UInt32.ofNat entry.len).toNat⟩] :=
    fun _ _ => rfl
  have started : false = true ↔ 0 < (0 : UInt32).toNat := by decide
  have answers : Answers (Small q) (UInt32.ofNat entry.len).toNat
      [⟨entry.base, (UInt32.ofNat entry.len).toNat⟩] memory
      (bufferCourse entry.len q false whole sector entry.len)
      (qcowReadSectorSingle fuel q memory sector entry.base (UInt32.ofNat entry.len)) :=
    loop_answers now started unchanged
  rw [word] at answers
  exact answers

theorem Confined.entry {after : Nat → UInt8} {entry : Range} {ranges : List Range}
    (confined : Confined before memory ranges) (here : Confined memory after [entry])
    (member : entry ∈ ranges) : Confined before after ranges := by
  intro address outside
  rw [← confined address outside]
  apply here
  intro range same
  rw [List.mem_singleton.mp same]
  exact outside entry member

theorem buffer_course_kept {turns left : Nat} {begun result : Bool} {after : Qcow}
    (passed : bufferCourse turns q begun whole sector left = .passed result after) :
    Kept q after := by
  induction turns generalizing q begun whole sector left with
  | zero =>
      cases passed
      exact Kept.refl after
  | succ turns ih =>
      unfold bufferCourse at passed
      split at passed
      · cases passed
        exact Kept.refl after
      · split at passed
        · cases passed
        · simp only at passed
          split at passed
          · cases passed
          · next cluster =>
              split at passed
              · cases passed
              · cases passed
                exact read_cluster_kept cluster
          · next cluster => exact (read_cluster_kept cluster).trans (ih passed)

theorem each_answers (q : Qcow) (sector : UInt64) (whole : Bool) {iov ranges : List Range}
    (sum : Int) (short : Described iov) (enough : 2 ^ 32 ≤ fuel)
    (confined : Confined before memory ranges) (given : ∀ entry ∈ iov, entry ∈ ranges) :
    Answers (Small q) (sum + total iov) ranges before (readCourse iov q whole sector)
      (readEach fuel iov q memory sector sum) := by
  induction iov generalizing q memory sector whole sum with
  | nil => exact ⟨by simp [readEach, total], rfl, confined⟩
  | cons entry rest ih =>
      have single := single_answers q memory sector whole (short entry (by simp)) enough
      rw [readCourse, readEach]
      cases course : bufferCourse entry.len q false whole sector entry.len with
      | stopped reported last =>
          rw [course] at single
          cases reported with
          | false =>
              intro small
              have stuck := single small
              simp only [stuck]
          | true =>
              obtain ⟨minus, disk, here⟩ := single
              have refused : (-1 : Int) ≠ entry.len := by omega
              simp only [minus, ne_eq, refused, not_false_eq_true, if_true]
              exact ⟨rfl, disk, confined.entry here (given entry (by simp))⟩
      | passed result last =>
          rw [course] at single
          obtain ⟨all, disk, here⟩ := single
          have kept := buffer_course_kept course
          have small : Small last = Small q := by rw [Small, Small, kept.header]
          have behind : Described rest := fun e member => short e (by simp [member])
          have later := ih last (sector + UInt64.ofNat (entry.len / 512)) result
            (sum + entry.len) behind (confined.entry here (given entry (by simp)))
            (fun e member => given e (by simp [member]))
          rw [small] at later
          have sums : sum + (entry.len : Int) + (total rest : Int) =
              sum + (total (entry :: rest) : Int) := by
            simp only [total]
            omega
          rw [sums] at later
          simp only [all, ne_eq, not_true_eq_false, if_false, disk]
          exact later

end Buffers

/-! What a range that was read in full received. -/

/-- The place of the next buffer. -/
theorem sector_rounded {sector : UInt64} {length : Nat}
    (fits : (sector <<< sectorShift).toNat + length < 2 ^ 64) :
    ((sector + UInt64.ofNat (length / 512)) <<< sectorShift).toNat =
      (sector <<< sectorShift).toNat + length / 512 * 512 := by
  rw [shifted_toNat] at fits ⊢
  rw [shifted_toNat, UInt64.toNat_add, UInt64.toNat_ofNat']
  omega

theorem sector_onward {sector : UInt64} {length : Nat} (whole : 512 ∣ length)
    (fits : (sector <<< sectorShift).toNat + length < 2 ^ 64) :
    ((sector + UInt64.ofNat (length / 512)) <<< sectorShift).toNat =
      (sector <<< sectorShift).toNat + length := by
  rw [sector_rounded fits, Nat.div_mul_cancel whole]

theorem store_delivered {read : ClusterRead} {bytes : List UInt8}
    (full : ClusterRead.delivered read = some bytes) (memory : Nat → UInt8) (dst : Nat) :
    ClusterRead.store memory dst read = writeRange memory dst bytes := by
  cases read with
  | wild => cases full
  | error => cases full
  | zero length =>
      cases full
      rfl
  | data length content =>
      simp only [ClusterRead.delivered] at full
      split at full
      · cases full
        rfl
      · cases full

section Filling
variable {dst : Nat} {dstLen nrRead : UInt32} {buf left turns fuel : Nat} {q after : Qcow}
variable {sector : UInt64} {begun whole : Bool}

theorem buffer_course_whole (passed : bufferCourse turns q begun whole sector left =
    .passed true after) : whole = true := by
  induction turns generalizing q begun whole sector left with
  | zero =>
      cases passed
      rfl
  | succ turns ih =>
      unfold bufferCourse at passed
      split at passed
      · cases passed
        rfl
      · split at passed
        · cases passed
        · simp only at passed
          split at passed
          · cases passed
          · split at passed
            · cases passed
            · cases passed
          · have flags := ih passed
            simp only [Bool.and_eq_true] at flags
            exact flags.1.1

theorem read_course_whole {iov : List Range} (passed : readCourse iov q whole sector =
    .passed true after) : whole = true := by
  induction iov generalizing q whole sector with
  | nil =>
      cases passed
      rfl
  | cons entry rest ih =>
      rw [readCourse] at passed
      cases course : bufferCourse entry.len q false whole sector entry.len with
      | stopped => simp [course] at passed
      | passed result middle =>
          rw [course] at passed
          have all : result = true := ih passed
          rw [all] at course
          exact buffer_course_whole course

theorem part_onward {clusterBits : Nat} (sectors : 9 ≤ clusterBits)
    (fits : (sector <<< sectorShift).toNat + left ≤ 2 ^ 64)
    (short : part clusterBits (sector <<< sectorShift) left < left) :
    ((sector + UInt64.ofNat (part clusterBits (sector <<< sectorShift) left / 512)) <<<
      sectorShift).toNat =
        (sector <<< sectorShift).toNat + part clusterBits (sector <<< sectorShift) left := by
  apply sector_onward
  · rcases part_cases clusterBits (sector <<< sectorShift) left with all | ⟨_, ends⟩
    · omega
    · have size : (2 : Nat) ^ 9 ∣ 2 ^ clusterBits := Nat.pow_dvd_pow 2 sectors
      have start : 2 ^ 9 ∣ (sector <<< sectorShift).toNat := by
        rw [shifted_toNat]
        omega
      exact (Nat.dvd_add_right start).mp (size.trans ends)
  · omega

theorem loop_fills (memory : Nat → UInt8) (sectors : 9 ≤ q.header.clusterBits)
    (narrow : q.header.clusterBits ≤ 62) (coherent : Coherent q)
    (now : Progress dstLen nrRead buf left turns fuel)
    (fits : (sector <<< sectorShift).toNat + left ≤ 2 ^ 64)
    (passed : bufferCourse turns q begun whole sector left = .passed true after) :
    Coherent after ∧ (readSectorLoop dst dstLen fuel q memory buf nrRead sector).bytes =
      writeRange memory (dst + buf)
        (readRange (reference q) (sector <<< sectorShift).toNat left) := by
  induction turns generalizing nrRead buf left fuel q memory sector begun whole with
  | zero =>
      have none : left = 0 := Nat.le_zero.mp now.course
      rw [loop_finished now none]
      cases passed
      exact ⟨coherent, by simp [none, readRange]⟩
  | succ turns ih =>
      by_cases none : left = 0
      · rw [loop_finished now none]
        rw [bufferCourse, if_pos none] at passed
        cases passed
        exact ⟨coherent, by simp [none, readRange]⟩
      · cases fuel with
        | zero => exact absurd now.loop (Nat.not_lt_zero _)
        | succ fuel =>
            by_cases outside : q.header.size ≤ sector <<< sectorShift
            · rw [bufferCourse, if_neg none, if_pos outside] at passed
              cases passed
            · rcases result : qcowReadCluster q (sector <<< sectorShift) left with ⟨read, middle⟩
              by_cases bad : read = .wild ∨ read = .error
              · rw [bufferCourse, if_neg none, if_neg outside] at passed
                simp only [result] at passed
                rcases bad with same | same
                · subst same
                  cases passed
                · subst same
                  simp only at passed
                  split at passed
                  · cases passed
                  · cases passed
              · obtain ⟨tame, good⟩ := not_or.mp bad
                rw [course_read none outside result tame good] at passed
                rw [loop_read now none outside result tame good]
                have flags := buffer_course_whole passed
                simp only [Bool.and_eq_true, Option.isSome_iff_exists] at flags
                obtain ⟨⟨_, table⟩, bytes, full⟩ := flags
                have kept := read_cluster_kept result
                have content := read_cluster_delivers narrow coherent table result full
                have onward := read_cluster_coherent coherent table result
                have positive := part_positive q.header.clusterBits (sector <<< sectorShift)
                  (Nat.pos_of_ne_zero none)
                have inside := part_le q.header.clusterBits (sector <<< sectorShift) left
                have place := part_onward sectors fits
                generalize part q.header.clusterBits (sector <<< sectorShift) left = length at *
                have next := now.step positive inside
                have room : ((sector + UInt64.ofNat (length / 512)) <<< sectorShift).toNat +
                    (left - length) ≤ 2 ^ 64 := by
                  rcases Nat.lt_or_eq_of_le inside with short | all
                  · rw [place short]
                    omega
                  · have word := UInt64.toNat_lt
                      ((sector + UInt64.ofNat (length / 512)) <<< sectorShift)
                    omega
                rw [← kept.header] at sectors narrow
                obtain ⟨last, rest⟩ := ih (ClusterRead.store memory (dst + buf) read) sectors narrow
                  onward next room passed
                refine ⟨last, ?_⟩
                have split : left = length + (left - length) := by omega
                rw [rest, store_delivered full, content, kept.reference, split, readRange_append,
                  writeRange_append, length_readRange, Nat.add_sub_cancel_left, Nat.add_assoc]
                rcases Nat.lt_or_eq_of_le inside with short | all
                · rw [place short]
                · have nothing : left - length = 0 := by omega
                  simp [nothing, readRange]

/-- Each buffer is filled from the place that its call comes to. -/
theorem each_carries (memory : Nat → UInt8) {iov : List Range} (sum : Int)
    (sectors : 9 ≤ q.header.clusterBits) (narrow : q.header.clusterBits ≤ 62)
    (coherent : Coherent q) (short : Described iov) (enough : 2 ^ 32 ≤ fuel)
    (fits : (sector <<< sectorShift).toNat + total iov ≤ 2 ^ 64)
    (passed : readCourse iov q whole sector = .passed true after) :
    Coherent after ∧ (readEach fuel iov q memory sector sum).bytes =
      scatter memory iov (carried 512 (reference q) (sector <<< sectorShift).toNat iov) := by
  induction iov generalizing q memory sector whole sum with
  | nil =>
      cases passed
      exact ⟨coherent, rfl⟩
  | cons entry rest ih =>
      have answers := single_answers q memory sector whole (short entry (by simp)) enough
      have now := start_progress (short entry (by simp)) enough
      simp only [total] at fits
      rw [readCourse] at passed
      cases course : bufferCourse entry.len q false whole sector entry.len with
      | stopped => simp [course] at passed
      | passed result middle =>
          rw [course] at answers passed
          simp only at passed
          have all : result = true := read_course_whole passed
          subst all
          have kept := buffer_course_kept course
          obtain ⟨onward, filled⟩ := loop_fills memory sectors narrow coherent now (by omega) course
          obtain ⟨returned, disk, _⟩ := answers
          rw [readEach]
          simp only [returned, ne_eq, not_true_eq_false, if_false, disk]
          have down := Nat.div_mul_le_self entry.len 512
          have place (more : total rest ≠ 0) :
              ((sector + UInt64.ofNat (entry.len / 512)) <<< sectorShift).toNat =
                (sector <<< sectorShift).toNat + entry.len / 512 * 512 :=
            sector_rounded (by omega)
          have room : ((sector + UInt64.ofNat (entry.len / 512)) <<< sectorShift).toNat +
              total rest ≤ 2 ^ 64 := by
            by_cases none : total rest = 0
            · have word := UInt64.toNat_lt
                ((sector + UInt64.ofNat (entry.len / 512)) <<< sectorShift)
              omega
            · rw [place none]
              omega
          rw [← kept.header] at sectors narrow
          obtain ⟨last, later⟩ := ih (qcowReadSectorSingle fuel q memory sector entry.base
            (UInt32.ofNat entry.len)).bytes (sum + entry.len) sectors narrow onward
            (fun e member => short e (by simp [member])) room passed
          have length := length_readRange (reference q) (sector <<< sectorShift).toNat entry.len
          refine ⟨last, ?_⟩
          rw [later, kept.reference, scatter, carried, List.take_left' length,
            List.drop_left' length]
          have here : (qcowReadSectorSingle fuel q memory sector entry.base
              (UInt32.ofNat entry.len)).bytes = writeRange memory entry.base
                (readRange (reference q) (sector <<< sectorShift).toNat entry.len) := filled
          rw [here]
          by_cases none : total rest = 0
          · rw [carried_whole _ _ (reach_none 512 none).2, carried_whole _ _ (reach_none 512 none).2,
              none]
            rfl
          · rw [place none]

theorem each_fills (memory : Nat → UInt8) {iov : List Range} (sum : Int)
    (sectors : 9 ≤ q.header.clusterBits) (narrow : q.header.clusterBits ≤ 62)
    (coherent : Coherent q) (short : Described iov) (aligned : Whole 512 iov)
    (enough : 2 ^ 32 ≤ fuel) (fits : (sector <<< sectorShift).toNat + total iov ≤ 2 ^ 64)
    (passed : readCourse iov q whole sector = .passed true after) :
    Coherent after ∧ (readEach fuel iov q memory sector sum).bytes =
      scatter memory iov (readRange (reference q) (sector <<< sectorShift).toNat (total iov)) := by
  rw [← carried_whole _ _ aligned]
  exact each_carries memory sum sectors narrow coherent short enough fits passed

end Filling

end VirtioDisk.QcowCourse
