import VirtioDisk.QcowByteArray
import VirtioDisk.SplitReads

/-!
`qcow_write_sector` goes on from buffer to buffer as the read does. On a host that
serves every call it stores what it is given, where the raw image would have it,
exactly when the buffers are whole and the image owns every cluster of the range.
-/

namespace VirtioDisk.SplitWrites

open ByteStore OwnedClusters QcowByteArray QcowCourse QcowImage QcowReference QcowWrite RawImage
  ReadSoundness ReadWrite ReferenceReads SectorSplit SplitReads
open QcowRead (part part_le part_positive qcow1Version qcow2OflagCopied qcow2OflagCompressed)

/-! The host. -/

section Host
variable {disk : ImageFile} {bytes : List UInt8} {turns offset : Nat}

theorem xpwrite_host (disk : ImageFile) (bytes : List UInt8) (offset : Nat) :
    (xpwrite disk bytes offset).2.host = disk.host := by
  unfold xpwrite
  split <;> rfl

theorem pwrite_loop_host (turns : Nat) (disk : ImageFile) (bytes : List UInt8) (offset : Nat) :
    (pwriteLoop turns disk bytes offset).2.host = disk.host := by
  induction turns generalizing disk bytes offset with
  | zero => rfl
  | succ turns ih =>
      have same := xpwrite_host disk bytes offset
      unfold pwriteLoop
      split
      · rfl
      · split
        · next wrote =>
            rw [wrote] at same
            exact same
        · next wrote =>
            rw [wrote] at same
            exact same
        · next wrote =>
            rw [wrote] at same
            rw [ih]
            exact same

theorem pwrite_loop_served (serves : Serves disk) (bounded : disk.file.size ≤ fileMax)
    (enough : bytes.length ≤ turns) (inside : offset + bytes.length ≤ disk.file.size) :
    (pwriteLoop turns disk bytes offset).1 = true := by
  induction turns generalizing disk bytes offset with
  | zero => rfl
  | succ turns ih =>
      unfold pwriteLoop
      split
      · rfl
      · next some_ =>
          have positive : 0 < bytes.length := List.length_pos_iff.mpr some_
          obtain ⟨most, moves, answer⟩ := serves disk.calls
          have host := xpwrite_host disk bytes offset
          split
          · next wrote =>
              simp only [xpwrite, answer] at wrote
              cases wrote
          · next wrote =>
              simp only [xpwrite, answer, Prod.mk.injEq, Option.some.injEq] at wrote
              have stuck := wrote.1
              split at stuck
              · omega
              · omega
          · next nr after moved wrote =>
              rw [wrote] at host
              have length : (bytes.drop nr).length = bytes.length - nr := List.length_drop
              rcases xpwrite_spec wrote with ⟨none, _⟩ | ⟨count, same, now⟩
              · cases none
              · cases same
                have fits := now.fits
                have size := now.size inside
                have forward : nr ≠ 0 := fun zero => moved (by rw [zero])
                apply ih
                · intro call
                  rw [host]
                  exact serves call
                · rw [size]
                  exact bounded
                · omega
                · rw [size]
                  omega

theorem pwrite_in_full_served {offset : UInt64} (serves : Serves disk)
    (bounded : disk.file.size ≤ fileMax) (inside : offset.toNat + bytes.length ≤ disk.file.size) :
    (pwriteInFull disk bytes offset).1 = true := by
  unfold pwriteInFull
  rw [if_neg (by omega)]
  exact pwrite_loop_served serves bounded (Nat.le_refl _) inside

theorem pwrite_in_full_host (disk : ImageFile) (bytes : List UInt8) (offset : UInt64) :
    (pwriteInFull disk bytes offset).2.host = disk.host := by
  unfold pwriteInFull
  split
  · rfl
  · exact pwrite_loop_host _ _ _ _

end Host

/-! An image that can be written to. -/

/-- The flag COPIED is only at entries that refer to something, and not at a
compressed cluster. -/
structure Marked (q : Qcow) : Prop where
  tables : ∀ index < q.tableSize, q.l1Table index &&& qcow2OflagCopied ≠ 0 →
    q.l1Table index &&& q.format.l2Mask ≠ 0
  clusters : ∀ offset, offset / 2 ^ (q.header.l2Bits + q.header.clusterBits) < q.tableSize →
    l1Entry q offset &&& qcow2OflagCopied ≠ 0 → l2Entry q offset &&& qcow2OflagCopied ≠ 0 →
      l2Entry q offset &&& q.format.startMask ≠ 0 ∧ l2Entry q offset &&& qcow2OflagCompressed = 0

/-- An image of the second version whose flags are what the format says of them, with a
cache that is the file's, on a host that serves every call. -/
structure Writable (q : Qcow) : Prop where
  second : q.version ≠ qcow1Version
  shiftable : Shiftable q
  sectors : 9 ≤ q.header.clusterBits
  bounded : q.disk.file.size ≤ fileMax
  serves : Serves q.disk
  coherent : Coherent q
  listed : Listed q
  exclusive : Exclusive q
  marked : Marked q

section Image
variable {q after : Qcow} {offset : Nat}

theorem Marked.same (marked : Marked q) (tables : SameTables q after) : Marked after := by
  constructor
  · rw [tables.table_size, tables.l1_table, tables.format]
    exact marked.tables
  · intro offset covered first second
    rw [tables.header, tables.table_size] at covered
    have upper : l1Entry after offset = l1Entry q offset := by
      rw [l1Entry, l1Entry, tables.l1_table, tables.header]
    rw [upper] at first
    have lower : l2Entry after offset = l2Entry q offset := by
      unfold l2Entry
      rw [upper, tables.header, tables.l2t_size, tables.format]
      exact congrFun (tables.tables _ covered (marked.tables _ covered first)) _
    rw [lower] at second ⊢
    rw [tables.format]
    exact marked.clusters offset covered first second

theorem Writable.same (writable : Writable q) (tables : SameTables q after)
    (coherent : Coherent after) (listed : Listed after)
    (host : after.disk.host = q.disk.host) : Writable after := by
  have version : after.version = q.version := by
    have same := congrArg Qcow.version tables.same
    exact same
  constructor
  · rw [version]
    exact writable.second
  · constructor
    · rw [tables.header]
      exact writable.shiftable.clusters
    · rw [tables.header]
      exact writable.shiftable.tables
  · rw [tables.header]
    exact writable.sectors
  · rw [tables.size]
    exact writable.bounded
  · intro call
    rw [host]
    exact writable.serves call
  · exact coherent
  · exact listed
  · exact writable.exclusive.same tables
  · exact writable.marked.same tables

/-- With both flags a cluster is one that the image owns. -/
theorem Writable.owns (writable : Writable q)
    (covered : offset / 2 ^ (q.header.l2Bits + q.header.clusterBits) < q.tableSize)
    (first : l1Entry q offset &&& qcow2OflagCopied ≠ 0)
    (second : l2Entry q offset &&& qcow2OflagCopied ≠ 0) : Owned q offset := by
  have named := writable.marked.tables _ covered first
  obtain ⟨some_, plain⟩ := writable.marked.clusters offset covered first second
  exact ⟨covered, first, second, plain, located_some covered named some_⟩

theorem Writable.table_whole (writable : Writable q) (offset : UInt64) : tableWhole q offset :=
  table_served writable.serves writable.bounded offset

end Image

/-! One cluster. -/

section Cluster
variable {q : Qcow} {offset : UInt64}

/-- The host serves the table and takes the bytes. -/
theorem served_cluster (m : Machine) (buf : List UInt8) (writable : Writable q)
    (owned : Owned q offset.toNat) :
    ∃ after, qcowWriteCluster m q offset buf =
        .ok (some (part q.header.clusterBits offset buf.length), after) ∧
      after.disk.host = q.disk.host := by
  have narrow := writable.shiftable.clusters
  obtain ⟨position, there⟩ := Option.isSome_iff_exists.mp owned.somewhere
  obtain ⟨start, word, wrote⟩ := owned_cluster_eq m buf writable.second (by omega)
    writable.coherent owned (writable.table_whole offset) there
  rcases read : qcowReadL2Table q (l2tOffset q offset) with ⟨found, middle⟩
  have kept := read_table_kept read
  rw [read] at wrote
  cases found with
  | none =>
      have loads : (preadInFull q.disk (8 * q.l2tSize) (l2tOffset q offset)).1 ≠ none := by
        apply pread_in_full_starts writable.serves writable.bounded
        by_contra beyond
        apply owned.entry
        have nothing : l2Entry q offset.toNat = 0 := stored_beyond (Nat.not_lt.mp beyond) _
        rw [nothing, UInt64.zero_and]
      unfold qcowReadL2Table at read
      split at read
      · cases read
      · split at read
        · next refused =>
            rw [refused] at loads
            exact absurd rfl loads
        · cases read
  | some l2t =>
      have below := Nat.mod_lt offset.toNat (Nat.two_pow_pos q.header.clusterBits)
      have length : (buf.take (part q.header.clusterBits offset buf.length)).length =
          part q.header.clusterBits offset buf.length := by
        have fits := part_le q.header.clusterBits offset buf.length
        rw [List.length_take]
        omega
      have inside : start.toNat +
          (buf.take (part q.header.clusterBits offset buf.length)).length ≤
            middle.disk.file.size := by
        rw [word, kept.disk.1, length]
        apply owned_inside writable.exclusive owned there
        unfold part
        omega
      have serves : Serves middle.disk := by
        intro call
        rw [kept.disk.2]
        exact writable.serves call
      have bounded : middle.disk.file.size ≤ fileMax := by
        rw [kept.disk.1]
        exact writable.bounded
      have all := pwrite_in_full_served serves bounded inside
      have host := pwrite_in_full_host middle.disk
        (buf.take (part q.header.clusterBits offset buf.length)) start
      rcases stores : pwriteInFull middle.disk
        (buf.take (part q.header.clusterBits offset buf.length)) start with ⟨done, disk⟩
      rw [stores] at all host
      subst all
      simp only [stores] at wrote
      exact ⟨_, wrote, by rw [← kept.disk.2, ← host]⟩

theorem write_cluster_stores (m : Machine) (buf : List UInt8) (writable : Writable q)
    (owned : Owned q offset.toNat) :
    ∃ after, qcowWriteCluster m q offset buf =
        .ok (some (part q.header.clusterBits offset buf.length), after) ∧
      Overwrote q after offset.toNat (buf.take (part q.header.clusterBits offset buf.length)) ∧
      Writable after := by
  have narrow := writable.shiftable.clusters
  obtain ⟨after, wrote, host⟩ := served_cluster m buf writable owned
  obtain ⟨result, again, nr, same, _, overwrote, coherent, listed, outcome⟩ :=
    write_cluster_owned m buf writable.second (by omega) writable.exclusive writable.coherent
      writable.listed owned (writable.table_whole offset)
  rw [wrote] at same
  obtain ⟨rfl, rfl⟩ := Prod.mk.inj (Except.ok.inj same)
  have all : nr = part q.header.clusterBits offset buf.length := by
    rcases outcome with none | ⟨_, count⟩
    · cases none
    · exact count
  rw [all] at overwrote
  exact ⟨after, wrote, overwrote, writable.same overwrote.toSameTables coherent listed host⟩

/-- A write that comes back with a count was to a cluster that the image owns. -/
theorem written_owned {m : Machine} {buf : List UInt8} {nr : Nat} {after : Qcow}
    (writable : Writable q)
    (covered : offset.toNat / 2 ^ (q.header.l2Bits + q.header.clusterBits) < q.tableSize)
    (wrote : qcowWriteCluster m q offset buf = .ok (some nr, after)) : Owned q offset.toNat := by
  obtain ⟨first, second⟩ := written_cluster_copied writable.second writable.coherent wrote
  have named := writable.marked.tables _ covered first
  exact writable.owns covered first
    (second (table_loads covered named (writable.table_whole offset)))

end Cluster

/-! A buffer. -/

section Buffer
variable {q after : Qcow} {offset : UInt64} {turns : Nat} {buf : List UInt8}

/-- The loop behind its first part. -/
theorem next_part {length : Nat} (inside : Inside q offset.toNat buf.length)
    (fits : length ≤ buf.length) (overwrote : SameTables q after) :
    (offset + UInt64.ofNat length).toNat = offset.toNat + length ∧
      Inside after (offset + UInt64.ofNat length).toNat (buf.drop length).length := by
  have size := inside.size
  have word := q.header.size.toNat_lt
  have moved : (offset + UInt64.ofNat length).toNat = offset.toNat + length := by
    rw [UInt64.toNat_add, UInt64.toNat_ofNat']
    omega
  refine ⟨moved, ?_⟩
  have rest := inside.rest fits
  have first := rest.size
  have second := rest.table
  rw [moved, List.length_drop]
  constructor
  · rw [overwrote.header]
    exact first
  · rw [overwrote.table_size, overwrote.header]
    exact second

theorem loop_stores (m : Machine) (writable : Writable q) (enough : buf.length ≤ turns)
    (inside : Inside q offset.toNat buf.length)
    (owned : ∀ i < buf.length, Owned q (offset.toNat + i)) (nrWritten : Nat) :
    ∃ after, writeSectorLoop m turns q offset buf nrWritten =
        .ok ((nrWritten + buf.length : Nat), after) ∧
      Overwrote q after offset.toNat buf ∧ Writable after := by
  induction turns generalizing q offset buf nrWritten with
  | zero =>
      have none : buf = [] := List.eq_nil_of_length_eq_zero (Nat.le_zero.mp enough)
      subst none
      exact ⟨q, rfl, kept_overwrote (Kept.refl q) _, writable⟩
  | succ turns ih =>
      rw [writeSectorLoop]
      by_cases none : buf = []
      · subst none
        exact ⟨q, rfl, kept_overwrote (Kept.refl q) _, writable⟩
      · have positive : 0 < buf.length := List.length_pos_iff.mpr none
        have size := inside.size
        have below : ¬ q.header.size ≤ offset := by
          rw [UInt64.not_le, UInt64.lt_iff_toNat_lt]
          omega
        obtain ⟨middle, wrote, overwrote, next⟩ :=
          write_cluster_stores m buf writable (owned 0 positive)
        have some_ := part_positive q.header.clusterBits offset positive
        have fits := part_le q.header.clusterBits offset buf.length
        rw [if_neg none, if_neg below, wrote]
        generalize part q.header.clusterBits offset buf.length = nr at *
        obtain ⟨moved, further⟩ := next_part inside fits overwrote.toSameTables
        have rest : (buf.drop nr).length = buf.length - nr := List.length_drop
        have first : (buf.take nr).length = nr := by
          rw [List.length_take]
          omega
        obtain ⟨last, ran, behind, final⟩ := ih next (by omega) further
          (by
            intro i early
            rw [moved, Nat.add_assoc]
            exact (overwrote.toSameTables.owned _).mpr (owned (nr + i) (by omega)))
          (nrWritten + nr)
        refine ⟨last, ?_, ?_, final⟩
        · have sum : nrWritten + nr + (buf.drop nr).length = nrWritten + buf.length := by omega
          rw [← sum]
          exact ran
        · rw [moved, ← first] at behind
          have whole := overwrote.trans behind
          rw [first, List.take_append_drop] at whole
          exact whole

/-- A loop that does not fail has been in owned clusters only. -/
theorem loop_done {m : Machine} {nrWritten : Nat} {count : Int} (writable : Writable q)
    (enough : buf.length ≤ turns) (inside : Inside q offset.toNat buf.length)
    (wrote : writeSectorLoop m turns q offset buf nrWritten = .ok (count, after))
    (done : count ≠ -1) : ∀ i < buf.length, Owned q (offset.toNat + i) := by
  induction turns generalizing q offset buf nrWritten with
  | zero =>
      intro i early
      omega
  | succ turns ih =>
      rw [writeSectorLoop] at wrote
      split at wrote
      · next none =>
          intro i early
          rw [none] at early
          cases early
      · next some_ =>
          have positive : 0 < buf.length := List.length_pos_iff.mpr some_
          split at wrote
          · cases wrote
            exact absurd rfl done
          · obtain ⟨⟨nr, middle⟩, cluster, rest⟩ := Transition.bind_ok wrote
            cases nr with
            | none =>
                cases rest
                exact absurd rfl done
            | some nr =>
                have table := inside.table
                have covered : offset.toNat / 2 ^ (q.header.l2Bits + q.header.clusterBits) <
                    q.tableSize := by
                  rw [Nat.div_lt_iff_lt_mul (Nat.two_pow_pos _)]
                  omega
                have here := written_owned writable covered cluster
                obtain ⟨same, stored, overwrote, next⟩ :=
                  write_cluster_stores m buf writable here
                rw [cluster] at stored
                obtain ⟨count, rfl⟩ := Prod.mk.inj (Except.ok.inj stored)
                have length := Option.some.inj count
                have ends : offset.toNat % 2 ^ q.header.clusterBits + nr ≤
                    2 ^ q.header.clusterBits := by
                  have below := Nat.mod_lt offset.toNat (Nat.two_pow_pos q.header.clusterBits)
                  rw [length]
                  unfold part
                  omega
                have fits : nr ≤ buf.length := by
                  rw [length]
                  exact part_le _ _ _
                have forward : 0 < nr := by
                  rw [length]
                  exact part_positive _ _ positive
                obtain ⟨moved, further⟩ := next_part inside fits overwrote.toSameTables
                have left : (buf.drop nr).length = buf.length - nr := List.length_drop
                have later := ih next (by omega) further rest
                intro i early
                by_cases first : i < nr
                · exact owned_part here (by omega)
                · have owned := (overwrote.toSameTables.owned _).mp (later (i - nr) (by omega))
                  rw [moved] at owned
                  have sum : offset.toNat + nr + (i - nr) = offset.toNat + i := by omega
                  rwa [sum] at owned

end Buffer

/-! All buffers. -/

/-- Every cluster that the call comes to is one that the image owns. -/
def SpansOwned (q : Qcow) : Nat → List Range → Prop
  | _, [] => True
  | start, entry :: rest =>
      (∀ i < entry.len, Owned q (start + i)) ∧ SpansOwned q (start + entry.len / 512 * 512) rest

section Each
variable {q after : Qcow} {sector : UInt64} {iov : List Range}

theorem SpansOwned.same (tables : SameTables q after) {start : Nat} {iov : List Range} :
    SpansOwned after start iov ↔ SpansOwned q start iov := by
  induction iov generalizing start with
  | nil => exact Iff.rfl
  | cons entry rest ih =>
      simp only [SpansOwned, ih, tables.owned]

/-- The places of the first buffer and of those behind it. -/
theorem each_inside {entry : Range} {rest : List Range}
    (inside : Inside q (sector <<< sectorShift).toNat (total (entry :: rest))) :
    Inside q (sector <<< sectorShift).toNat entry.len ∧
      ((sector + UInt64.ofNat (entry.len / 512)) <<< sectorShift).toNat =
        (sector <<< sectorShift).toNat + entry.len / 512 * 512 ∧
      Inside q ((sector + UInt64.ofNat (entry.len / 512)) <<< sectorShift).toNat (total rest) := by
  have first := inside.size
  have second := inside.table
  have word := q.header.size.toNat_lt
  simp only [total] at first second
  have place : ((sector + UInt64.ofNat (entry.len / 512)) <<< sectorShift).toNat =
      (sector <<< sectorShift).toNat + entry.len / 512 * 512 := sector_rounded (by omega)
  refine ⟨⟨by omega, by omega⟩, place, ?_⟩
  rw [place]
  constructor
  · omega
  · omega

theorem Inside.same {start length : Nat} (inside : Inside q start length)
    (tables : SameTables q after) : Inside after start length := by
  constructor
  · rw [tables.header]
    exact inside.size
  · rw [tables.table_size, tables.header]
    exact inside.table

theorem each_stores (m : Machine) (memory : Nat → UInt8) (writable : Writable q) (short : Described iov)
    (inside : Inside q (sector <<< sectorShift).toNat (total iov))
    (spans : SpansOwned q (sector <<< sectorShift).toNat iov) (sum : Int) :
    ∃ after, writeEach m iov q memory sector sum = .ok (sum + total iov, after) ∧
      reference after =
        laid 512 memory (sector <<< sectorShift).toNat iov (reference q) := by
  induction iov generalizing q sector sum with
  | nil => exact ⟨q, by simp [writeEach, total], rfl⟩
  | cons entry rest ih =>
      obtain ⟨here, place, behind⟩ := each_inside inside
      have length : (readRange memory entry.base entry.len).length = entry.len :=
        length_readRange _ _ _
      obtain ⟨middle, wrote, overwrote, next⟩ := loop_stores m writable (Nat.le_of_eq rfl)
        (by rw [length]; exact here)
        (by rw [length]; exact spans.1) 0
      have single : qcowWriteSectorSingle m q sector (readRange memory entry.base entry.len) =
          .ok ((entry.len : Nat), middle) := by
        rw [qcowWriteSectorSingle, wrote, Nat.zero_add, length]
      obtain ⟨last, ran, stored⟩ := ih next (fun e member => short e (by simp [member]))
        (Inside.same behind overwrote.toSameTables)
        (by rw [place]; exact (SpansOwned.same overwrote.toSameTables).mpr spans.2)
        (sum + entry.len)
      refine ⟨last, ?_, ?_⟩
      · rw [writeEach, described_word short, single]
        simp only [bind, Except.bind, ne_eq, not_true_eq_false, if_false]
        rw [ran, total, Int.natCast_add, Int.add_assoc]
      · rw [stored, place, overwrote.content, laid]

/-- A call that does not fail has been in owned clusters only. -/
theorem each_done {m : Machine} {memory : Nat → UInt8} {sum count : Int} (writable : Writable q) (short : Described iov)
    (inside : Inside q (sector <<< sectorShift).toNat (total iov))
    (wrote : writeEach m iov q memory sector sum = .ok (count, after)) (done : count ≠ -1) :
    SpansOwned q (sector <<< sectorShift).toNat iov := by
  induction iov generalizing q sector sum with
  | nil => trivial
  | cons entry rest ih =>
      obtain ⟨here, place, behind⟩ := each_inside inside
      have length : (readRange memory entry.base entry.len).length = entry.len :=
        length_readRange _ _ _
      have room : Inside q (sector <<< sectorShift).toNat
          (readRange memory entry.base entry.len).length := by
        rw [length]
        exact here
      rw [writeEach, described_word short] at wrote
      obtain ⟨⟨nr, middle⟩, single, wrote⟩ := Transition.bind_ok wrote
      simp only at wrote
      split at wrote
      · cases wrote
        exact absurd rfl done
      · next all =>
          have whole : nr = entry.len := not_not.mp all
          have owned := loop_done writable (Nat.le_of_eq rfl) room single (by omega)
          obtain ⟨again, stored, overwrote, next⟩ :=
            loop_stores m writable (Nat.le_of_eq rfl) room owned 0
          rw [qcowWriteSectorSingle, stored] at single
          obtain ⟨_, rfl⟩ := Prod.mk.inj (Except.ok.inj single)
          rw [length] at owned
          refine ⟨owned, ?_⟩
          rw [← place, ← SpansOwned.same overwrote.toSameTables]
          exact ih next (fun e member => short e (by simp [member]))
            (Inside.same behind overwrote.toSameTables) wrote

/-- The clusters of whole buffers are those of the range. -/
theorem spans_whole_iff {start : Nat} (whole : Whole 512 iov) :
    SpansOwned q start iov ↔ ∀ i < total iov, Owned q (start + i) := by
  induction iov generalizing start with
  | nil => exact iff_of_true trivial (fun i early => absurd early (Nat.not_lt_zero i))
  | cons entry rest ih =>
      obtain ⟨ends, later⟩ := whole
      rw [SpansOwned, ih later, total]
      by_cases none : total rest = 0
      · simp [none]
      · rw [Nat.div_mul_cancel (ends none)]
        constructor
        · rintro ⟨first, second⟩ i early
          by_cases before : i < entry.len
          · exact first i before
          · have owned := second (i - entry.len) (by omega)
            have sum : start + entry.len + (i - entry.len) = start + i := by omega
            rwa [sum] at owned
        · intro all
          refine ⟨fun i early => all i (by omega), ?_⟩
          intro i early
          rw [Nat.add_assoc]
          exact all (entry.len + i) (by omega)

end Each

/-! Any split. -/

/-- A call returns its length, and the disk has its bytes where the raw image would. -/
def Stores (m : Machine) (sector : UInt64) (iov : List Range) (q : Qcow) : Prop :=
  ∀ memory, ∃ after, qcowWriteSector m q memory sector iov = .ok ((total iov : Int), after) ∧
    reference after = writeRange (reference q) (sector.toNat * 512) (gather memory iov)

section Splits
variable {m : Machine} {q : Qcow} {sector : UInt64} {iov : List Range}

theorem laid_broken (disk : Nat → UInt8) (start : Nat) (broken : ¬ Whole 512 iov) :
    ∃ memory, laid 512 memory start iov disk ≠ writeRange disk start (gather memory iov) := by
  have below := reach_le 512 iov
  have lost : reach 512 iov ≠ total iov := fun same => broken ((reach_total_iff iov).mp same)
  obtain ⟨last, length⟩ : ∃ last, total iov = last + 1 := ⟨total iov - 1, by omega⟩
  let memory : Nat → UInt8 := fun _ => disk (start + last) + 1
  have uniform (address : Nat) : memory address = disk (start + last) + 1 := rfl
  refine ⟨memory, ?_⟩
  intro same
  have cell := congrFun same (start + last)
  have inside : last < (gather memory iov).length := by
    rw [length_gather]
    omega
  have given : (gather memory iov)[last] = disk (start + last) + 1 := by
    obtain ⟨address, value⟩ := gather_mem (List.getElem_mem inside)
    rw [value, uniform address]
  rw [laid_beyond _ _ (by omega), writeRange_inside _ _ _ _ inside, given] at cell
  exact absurd cell (by grind)

theorem stores_iff (writable : Writable q) (short : Described iov)
    (inside : Inside q (sector.toNat * 512) (total iov)) :
    Stores m sector iov q ↔
      Whole 512 iov ∧ ∀ i < total iov, Owned q (sector.toNat * 512 + i) := by
  have size := inside.size
  have word := q.header.size.toNat_lt
  have start : (sector <<< sectorShift).toNat = sector.toNat * 512 := start_bytes (by omega)
  rw [← start] at inside
  constructor
  · intro stores
    have spans : SpansOwned q (sector <<< sectorShift).toNat iov := by
      obtain ⟨after, wrote, _⟩ := stores fun _ => 0
      exact each_done writable short inside wrote (by omega)
    have whole : Whole 512 iov := by
      by_contra broken
      obtain ⟨memory, differs⟩ := laid_broken (reference q) (sector.toNat * 512) broken
      obtain ⟨after, wrote, stored⟩ := stores memory
      obtain ⟨again, same, content⟩ :=
        each_stores m memory writable short inside spans 0
      rw [qcowWriteSector, same] at wrote
      obtain ⟨_, rfl⟩ := Prod.mk.inj (Except.ok.inj wrote)
      rw [start] at content
      exact differs (content.symm.trans stored)
    rw [spans_whole_iff whole, start] at spans
    exact ⟨whole, spans⟩
  · rintro ⟨whole, owned⟩ memory
    rw [← start] at owned
    obtain ⟨after, wrote, content⟩ :=
      each_stores m memory writable short inside
        ((spans_whole_iff whole).mpr owned) 0
    rw [laid_whole _ _ _ whole, start] at content
    rw [Int.zero_add] at wrote
    exact ⟨after, wrote, content⟩

end Splits

/-! The first cluster of the copied image, and a sector that is broken. -/

theorem copied_writable : Writable copiedImage := by
  constructor
  · decide
  · exact ⟨by decide, by decide⟩
  · decide
  · decide
  · exact fun _ => ⟨65536, by decide, rfl⟩
  · exact copied_coherent
  · intro l2t member
    cases member
  · exact copied_opened.exclusive
  · constructor
    · decide
    · intro offset _ _ second
      have early : offset / 512 % 64 < copiedImage.l2tSize := Nat.mod_lt _ (by decide)
      have upper : l1Entry copiedImage offset = qcow2OflagCopied ||| 1024 := rfl
      have base : (qcow2OflagCopied ||| 1024 : UInt64) &&& copiedImage.format.l2Mask = 1024 := by
        decide
      have entry : l2Entry copiedImage offset =
          if offset / 512 % 64 = 0 then qcow2OflagCopied ||| 1536 else 0 := by
        have index : offset / 2 ^ copiedImage.header.clusterBits % copiedImage.l2tSize =
          offset / 512 % 64 := rfl
        rw [l2Entry, upper, base, index, stored_entry early]
        exact copied_entries _ early
      rw [entry] at second ⊢
      split
      · decide
      · next other =>
          rw [if_neg other] at second
          exact absurd rfl second

end VirtioDisk.SplitWrites
