import VirtioDisk.QcowCourse
import VirtioDisk.QcowWrite

/-!
Writes to clusters that the image owns alone: those whose entries in both levels
of tables have the flag COPIED. Such a write goes to its place in the file and
touches no table, so that it changes the bytes of its range and no other byte of
the disk, even when the host breaks it off.
-/

namespace VirtioDisk.OwnedClusters

open ByteStore LruCache QcowCourse QcowImage QcowReference QcowWrite RawImage ReadWrite
open QcowRead (part part_le part_positive qcow2OflagCopied qcow2OflagCompressed qcow2OffsetMask
  qcow1Version)

/-! The host. -/

section Host
variable {disk : ImageFile} {bytes : List UInt8} {turns offset : Nat}

/-- The first `nr` of the bytes were written, all of them if the call says so. -/
structure WrittenUpTo (disk after : ImageFile) (bytes : List UInt8) (offset nr : Nat)
    (all : Bool) : Prop where
  fits : nr ≤ bytes.length
  content : after.file.bytes = writeRange disk.file.bytes offset (bytes.take nr)
  size : offset + bytes.length ≤ disk.file.size → after.file.size = disk.file.size
  all : all = true → nr = bytes.length

theorem written_none (disk after : ImageFile) (same : after.file = disk.file)
    (bytes : List UInt8) (offset : Nat) : WrittenUpTo disk after bytes offset 0 false := by
  constructor
  · exact Nat.zero_le _
  · simp [same]
  · intro _
    rw [same]
  · intro all
    cases all

theorem xpwrite_spec {nr : Option Nat} {after : ImageFile}
    (wrote : xpwrite disk bytes offset = (nr, after)) :
    (nr = none ∧ after.file = disk.file) ∨
      ∃ moved, nr = some moved ∧ WrittenUpTo disk after bytes offset moved false := by
  unfold xpwrite at wrote
  split at wrote
  · cases wrote
    exact Or.inl ⟨rfl, rfl⟩
  · cases wrote
    refine Or.inr ⟨_, rfl, by omega, rfl, ?_, fun all => by cases all⟩
    intro inside
    simp only
    split
    · split
      · rfl
      · omega
    · split
      · rfl
      · omega

theorem pwrite_loop_spec (disk : ImageFile) (offset : Nat) (enough : bytes.length ≤ turns) :
    ∃ nr, WrittenUpTo disk (pwriteLoop turns disk bytes offset).2 bytes offset nr
      (pwriteLoop turns disk bytes offset).1 := by
  induction turns generalizing disk bytes offset with
  | zero =>
      have none : bytes = [] := List.eq_nil_of_length_eq_zero (Nat.le_zero.mp enough)
      subst none
      exact ⟨0, Nat.zero_le _, by simp [pwriteLoop], fun _ => rfl, fun _ => rfl⟩
  | succ turns ih =>
      unfold pwriteLoop
      split
      · next none =>
          subst none
          exact ⟨0, Nat.zero_le _, by simp, fun _ => rfl, fun _ => rfl⟩
      · split
        · next wrote =>
            rcases xpwrite_spec wrote with ⟨_, same⟩ | ⟨_, some_, _⟩
            · exact ⟨0, written_none _ _ same _ _⟩
            · cases some_
        · next wrote =>
            rcases xpwrite_spec wrote with ⟨none, _⟩ | ⟨moved, same, now⟩
            · cases none
            · cases same
              exact ⟨0, now⟩
        · next nr after some_ wrote =>
            rcases xpwrite_spec wrote with ⟨none, _⟩ | ⟨moved, same, now⟩
            · cases none
            · cases same
              have positive : nr ≠ 0 := fun zero => some_ (by rw [zero])
              have fits := now.fits
              have length : (bytes.drop nr).length = bytes.length - nr := List.length_drop
              have less : (bytes.drop nr).length ≤ turns := by omega
              obtain ⟨more, later⟩ := ih after (offset + nr) less
              have rest := later.fits
              rw [length] at rest
              have first : (bytes.take nr).length = nr := by
                rw [List.length_take]
                omega
              refine ⟨nr + more, by omega, ?_, ?_, ?_⟩
              · rw [later.content, now.content, List.take_add, writeRange_append, first]
              · intro inside
                have same := now.size inside
                rw [later.size (by rw [length, same]; omega), same]
              · intro all
                have behind := later.all all
                rw [length] at behind
                omega

end Host

theorem pwrite_in_full_spec (disk : ImageFile) (bytes : List UInt8) (offset : UInt64) :
    ∃ nr, WrittenUpTo disk (pwriteInFull disk bytes offset).2 bytes offset.toNat nr
      (pwriteInFull disk bytes offset).1 := by
  unfold pwriteInFull
  split
  · refine ⟨0, Nat.zero_le _, by simp, fun _ => rfl, ?_⟩
    intro all
    have none : bytes = [] := by simpa using all
    simp [none]
  · exact pwrite_loop_spec _ _ (Nat.le_refl _)

/-! The clusters that the image owns. -/

def l1Entry (q : Qcow) (offset : Nat) : UInt64 :=
  q.l1Table (offset / 2 ^ (q.header.l2Bits + q.header.clusterBits))

def l2Entry (q : Qcow) (offset : Nat) : UInt64 :=
  storedTable q.disk.file q.l2tSize (l1Entry q offset &&& q.format.l2Mask).toNat
    (offset / 2 ^ q.header.clusterBits % q.l2tSize)

/-- Both entries of the cluster have the flag COPIED. -/
structure Owned (q : Qcow) (offset : Nat) : Prop where
  covered : offset / 2 ^ (q.header.l2Bits + q.header.clusterBits) < q.tableSize
  table : l1Entry q offset &&& qcow2OflagCopied ≠ 0
  entry : l2Entry q offset &&& qcow2OflagCopied ≠ 0
  plain : l2Entry q offset &&& qcow2OflagCompressed = 0
  somewhere : (located q offset).isSome

/-- What the flag promises: the cluster is inside the file, no other cluster of the disk
is there, and no table. -/
structure Exclusive (q : Qcow) : Prop where
  inside : ∀ offset position, Owned q offset → located q offset = some position →
    position < q.disk.file.size
  apart : ∀ offset position other, Owned q offset → located q offset = some position →
    located q other = some position → other = offset
  tables : ∀ offset position, Owned q offset → located q offset = some position →
    ∀ index < q.tableSize, q.l1Table index &&& q.format.l2Mask ≠ 0 →
      position < (q.l1Table index &&& q.format.l2Mask).toNat ∨
        (q.l1Table index &&& q.format.l2Mask).toNat + 8 * q.l2tSize ≤ position

/-- Every cached node is a table that the level 1 table names. -/
def Listed (q : Qcow) : Prop :=
  ∀ l2t ∈ q.l2Cache, ∃ index < q.tableSize, q.l1Table index &&& q.format.l2Mask ≠ 0 ∧
    l2t.offset = q.l1Table index &&& q.format.l2Mask

/-- The file may have changed, but not the tables that the level 1 table names. -/
structure SameTables (q after : Qcow) : Prop where
  same : { after with l2Cache := q.l2Cache, disk := q.disk } = q
  size : after.disk.file.size = q.disk.file.size
  tables : ∀ index < q.tableSize, q.l1Table index &&& q.format.l2Mask ≠ 0 →
    storedTable after.disk.file q.l2tSize (q.l1Table index &&& q.format.l2Mask).toNat =
      storedTable q.disk.file q.l2tSize (q.l1Table index &&& q.format.l2Mask).toNat

/-- The disk is as before but for `items` at `offset`. -/
structure Overwrote (q after : Qcow) (offset : Nat) (items : List UInt8) : Prop extends
    SameTables q after where
  content : reference after = writeRange (reference q) offset items

section Owning
variable {q middle after : Qcow} {offset : Nat} {items more : List UInt8}

theorem SameTables.header (overwrote : SameTables q after) : after.header = q.header := by
  have same := congrArg Qcow.header overwrote.same
  exact same

theorem SameTables.table_size (overwrote : SameTables q after) :
    after.tableSize = q.tableSize := by
  have same := congrArg Qcow.tableSize overwrote.same
  exact same

theorem SameTables.l1_table (overwrote : SameTables q after) :
    after.l1Table = q.l1Table := by
  have same := congrArg Qcow.l1Table overwrote.same
  exact same

theorem SameTables.l2t_size (overwrote : SameTables q after) :
    after.l2tSize = q.l2tSize := by
  rw [Qcow.l2tSize, Qcow.l2tSize, overwrote.header]

theorem SameTables.format (overwrote : SameTables q after) : after.format = q.format := by
  have same := congrArg Qcow.version overwrote.same
  rw [Qcow.format, Qcow.format, ← same]

theorem kept_tables (kept : Kept q after) : SameTables q after := by
  constructor
  · exact kept.same
  · rw [kept.disk.1]
  · intro index covered named
    rw [kept.disk.1]

theorem kept_overwrote (kept : Kept q after) (offset : Nat) : Overwrote q after offset [] := by
  constructor
  · exact kept_tables kept
  · rw [writeRange_nil, kept.reference]

theorem SameTables.located (overwrote : SameTables q after) : located after = located q := by
  funext other
  unfold QcowReference.located
  rw [overwrote.header, overwrote.table_size, overwrote.l1_table, overwrote.l2t_size,
    overwrote.format]
  simp only
  split
  · rfl
  · next covered =>
      split
      · rfl
      · next named => rw [overwrote.tables _ (Nat.not_le.mp covered) named]

theorem SameTables.trans (first : SameTables q middle) (second : SameTables middle after) :
    SameTables q after := by
  constructor
  · have back := congrArg (fun r : Qcow => { r with l2Cache := q.l2Cache, disk := q.disk })
      second.same
    exact back.trans first.same
  · rw [second.size, first.size]
  · intro index covered named
    have again := second.tables index (by rw [first.table_size]; exact covered)
      (by rw [first.l1_table, first.format]; exact named)
    rw [first.l1_table, first.format, first.l2t_size] at again
    rw [again]
    exact first.tables index covered named

theorem Overwrote.trans (first : Overwrote q middle offset items)
    (second : Overwrote middle after (offset + items.length) more) :
    Overwrote q after offset (items ++ more) := by
  constructor
  · exact first.toSameTables.trans second.toSameTables
  · rw [second.content, first.content, writeRange_append]

theorem located_named {position : Nat} (there : located q offset = some position) :
    offset / 2 ^ (q.header.l2Bits + q.header.clusterBits) < q.tableSize ∧
      l1Entry q offset &&& q.format.l2Mask ≠ 0 ∧ l2Entry q offset &&& q.format.startMask ≠ 0 ∧
      position = (l2Entry q offset &&& q.format.startMask).toNat +
        offset % 2 ^ q.header.clusterBits := by
  simp only [QcowReference.located] at there
  split at there
  · cases there
  · next covered =>
      split at there
      · cases there
      · next named =>
          split at there
          · cases there
          · next some_ =>
              cases there
              exact ⟨Nat.not_le.mp covered, named, some_, rfl⟩

theorem located_some (covered : offset / 2 ^ (q.header.l2Bits + q.header.clusterBits) < q.tableSize)
    (named : l1Entry q offset &&& q.format.l2Mask ≠ 0)
    (some_ : l2Entry q offset &&& q.format.startMask ≠ 0) : (located q offset).isSome := by
  unfold l2Entry l1Entry at some_
  unfold l1Entry at named
  simp only [QcowReference.located, if_neg (Nat.not_le.mpr covered), if_neg named, if_neg some_,
    Option.isSome_some]

theorem SameTables.entries (overwrote : SameTables q after) {other : Nat}
    (somewhere : (QcowReference.located q other).isSome) :
    l1Entry after other = l1Entry q other ∧ l2Entry after other = l2Entry q other := by
  obtain ⟨position, there⟩ := Option.isSome_iff_exists.mp somewhere
  obtain ⟨covered, named, _⟩ := located_named there
  have first : l1Entry after other = l1Entry q other := by
    rw [l1Entry, l1Entry, overwrote.l1_table, overwrote.header]
  constructor
  · exact first
  · unfold l2Entry
    rw [first, overwrote.header, overwrote.l2t_size, overwrote.format]
    exact congrFun (overwrote.tables _ covered named) _

theorem SameTables.owned (overwrote : SameTables q after) (other : Nat) :
    Owned after other ↔ Owned q other := by
  constructor
  · intro owned
    have somewhere := owned.somewhere
    rw [overwrote.located] at somewhere
    obtain ⟨first, second⟩ := overwrote.entries somewhere
    constructor
    · rw [← overwrote.header, ← overwrote.table_size]
      exact owned.covered
    · rw [← first]
      exact owned.table
    · rw [← second]
      exact owned.entry
    · rw [← second]
      exact owned.plain
    · exact somewhere
  · intro owned
    obtain ⟨first, second⟩ := overwrote.entries owned.somewhere
    constructor
    · rw [overwrote.header, overwrote.table_size]
      exact owned.covered
    · rw [first]
      exact owned.table
    · rw [second]
      exact owned.entry
    · rw [second]
      exact owned.plain
    · rw [overwrote.located]
      exact owned.somewhere

theorem Exclusive.same (exclusive : Exclusive q) (overwrote : SameTables q after) :
    Exclusive after := by
  constructor
  · intro here position owned there
    rw [overwrote.located] at there
    rw [overwrote.size]
    exact exclusive.inside here position ((overwrote.owned here).mp owned) there
  · intro here position other owned there too
    rw [overwrote.located] at there too
    exact exclusive.apart here position other ((overwrote.owned here).mp owned) there too
  · intro here position owned there
    rw [overwrote.located] at there
    rw [overwrote.table_size, overwrote.l1_table, overwrote.format, overwrote.l2t_size]
    exact exclusive.tables here position ((overwrote.owned here).mp owned) there

theorem Listed.same (listed : Listed q) (overwrote : SameTables q after)
    (cached : after.l2Cache = q.l2Cache) : Listed after := by
  unfold Listed
  rw [cached, overwrote.table_size, overwrote.l1_table, overwrote.format]
  exact listed

theorem coherent_same (coherent : Coherent q) (listed : Listed q) (overwrote : SameTables q after)
    (cached : after.l2Cache = q.l2Cache) :
    Coherent after := by
  intro l2t member index entry
  rw [cached] at member
  rw [overwrote.l2t_size] at entry ⊢
  obtain ⟨upper, covered, named, same⟩ := listed l2t member
  rw [coherent l2t member index entry, same, overwrote.tables upper covered named]

theorem owned_part {i : Nat} (owned : Owned q offset)
    (inside : offset % 2 ^ q.header.clusterBits + i < 2 ^ q.header.clusterBits) :
    Owned q (offset + i) := by
  obtain ⟨same, _⟩ := same_cluster inside
  have upper : (offset + i) / 2 ^ (q.header.l2Bits + q.header.clusterBits) =
      offset / 2 ^ (q.header.l2Bits + q.header.clusterBits) := by
    rw [upper_index, upper_index, same]
  have first : l1Entry q (offset + i) = l1Entry q offset := by rw [l1Entry, l1Entry, upper]
  have second : l2Entry q (offset + i) = l2Entry q offset := by
    rw [l2Entry, l2Entry, first, same]
  constructor
  · rw [upper]
    exact owned.covered
  · rw [first]
    exact owned.table
  · rw [second]
    exact owned.entry
  · rw [second]
    exact owned.plain
  · rw [located_part inside, Option.isSome_map]
    exact owned.somewhere

theorem cell_writeRange {file written : File} {position : Nat}
    (bytes : written.bytes = writeRange file.bytes position items) (size : written.size = file.size)
    (inside : position + items.length ≤ file.size) :
    cell written = writeRange (cell file) position items := by
  funext i
  rw [cell, size, bytes]
  by_cases early : i < file.size
  · rw [if_pos early]
    apply writeRange_congr
    rw [cell, if_pos early]
  · rw [if_neg early, writeRange_outside _ _ _ _ (Or.inr (by omega)), cell, if_neg early]

theorem owned_place {position count : Nat} (owned : Owned q offset)
    (there : located q offset = some position)
    (part : offset % 2 ^ q.header.clusterBits + count ≤ 2 ^ q.header.clusterBits) (i : Nat)
    (early : i < count) :
    Owned q (offset + i) ∧ located q (offset + i) = some (position + i) := by
  have within : offset % 2 ^ q.header.clusterBits + i < 2 ^ q.header.clusterBits := by omega
  constructor
  · exact owned_part owned within
  · rw [located_part within, there]
    rfl

theorem owned_inside {position count : Nat} (exclusive : Exclusive q) (owned : Owned q offset)
    (there : located q offset = some position)
    (part : offset % 2 ^ q.header.clusterBits + count ≤ 2 ^ q.header.clusterBits) :
    position + count ≤ q.disk.file.size := by
  by_cases none : count = 0
  · have here := exclusive.inside offset position owned there
    omega
  · obtain ⟨last, here⟩ := owned_place owned there part (count - 1) (by omega)
    have within := exclusive.inside _ _ last here
    omega

/-- A write to the place of a part of an owned cluster. -/
theorem owned_write {position : Nat} (exclusive : Exclusive q) (owned : Owned q offset)
    (there : located q offset = some position)
    (part : offset % 2 ^ q.header.clusterBits + items.length ≤ 2 ^ q.header.clusterBits)
    (same : { after with l2Cache := q.l2Cache, disk := q.disk } = q)
    (bytes : after.disk.file.bytes = writeRange q.disk.file.bytes position items)
    (size : after.disk.file.size = q.disk.file.size) : Overwrote q after offset items := by
  have place := owned_place owned there part
  have inside := owned_inside exclusive owned there part
  have cells := cell_writeRange bytes size inside
  have tables (index : Nat) (covered : index < q.tableSize)
      (named : q.l1Table index &&& q.format.l2Mask ≠ 0) :
      storedTable after.disk.file q.l2tSize (q.l1Table index &&& q.format.l2Mask).toNat =
        storedTable q.disk.file q.l2tSize (q.l1Table index &&& q.format.l2Mask).toNat := by
    unfold storedTable
    rw [cells, readRange_disjoint]
    intro i early
    obtain ⟨here, mapped⟩ := place i early
    exact exclusive.tables _ _ here mapped index covered named
  have frame : SameTables q after := ⟨same, size, tables⟩
  refine ⟨frame, ?_⟩
  funext other
  have mapped := frame.located
  -- A byte of the disk is in the range exactly if its place is where the write went.
  have range (i : Nat) (early : i < items.length) :
      located q other = some (position + i) → other = offset + i := by
    obtain ⟨here, at_⟩ := place i early
    exact exclusive.apart _ _ other here at_
  rcases writeRange_cases (reference q) offset items other with
    ⟨i, early, spot, value⟩ | ⟨outside, value⟩
  · obtain ⟨_, at_⟩ := place i early
    rw [value, reference, mapped, spot, at_]
    simp only
    rw [cells]
    exact writeRange_inside _ _ _ _ early
  · rw [value, reference, reference, mapped]
    cases at_ : located q other with
    | none => rfl
    | some spot =>
        simp only
        rw [cells]
        apply writeRange_outside
        by_cases before : spot < position
        · exact Or.inl before
        · by_cases behind : position + items.length ≤ spot
          · exact Or.inr behind
          · have sum : spot = position + (spot - position) := by omega
            have early : spot - position < items.length := by omega
            have hit := range (spot - position) early (by rw [at_, ← sum])
            omega

end Owning

/-! Reads keep the cache to the tables that are named. -/

section Reads
variable {q after : Qcow} {offset : UInt64} {left : Nat}

theorem read_table_found {l2t : L2Table} (read : qcowReadL2Table q offset = (some l2t, after)) :
    l2t.offset = offset ∧ l2t ∈ after.l2Cache := by
  unfold qcowReadL2Table l2TableSearch at read
  split at read
  · next hit =>
      cases read
      obtain ⟨node, there, pair⟩ := Option.map_eq_some_iff.mp hit
      cases pair
      exact ⟨lookup_key there, touch_mem there⟩
  · split at read
    · cases read
    · cases read
      exact ⟨rfl, insert_mem _ _ _⟩

theorem read_table_none (read : qcowReadL2Table q offset = (none, after)) :
    after.l2Cache = q.l2Cache := by
  unfold qcowReadL2Table at read
  split at read
  · cases read
  · split at read
    · cases read
      rfl
    · cases read

theorem read_table_listed {found : Option L2Table} {index : Nat} (listed : Listed q)
    (covered : index < q.tableSize) (named : q.l1Table index &&& q.format.l2Mask ≠ 0)
    (read : qcowReadL2Table q (q.l1Table index &&& q.format.l2Mask) = (found, after)) :
    Listed after := by
  unfold qcowReadL2Table l2TableSearch at read
  split at read
  · next hit =>
      cases read
      obtain ⟨node, there, pair⟩ := Option.map_eq_some_iff.mp hit
      cases pair
      exact forall_touch listed
  · split at read
    · cases read
      exact listed
    · cases read
      apply forall_insert
      · exact ⟨index, covered, named, rfl⟩
      · exact listed

theorem read_cluster_listed {result : ClusterRead} (listed : Listed q)
    (read : qcowReadCluster q offset left = (result, after)) : Listed after := by
  have keeps {middle : Qcow} (now : Listed middle) (kept : Kept middle after)
      (cached : after.l2Cache = middle.l2Cache) : Listed after :=
    now.same (kept_tables kept) cached
  cases read_cluster_cases read with
  | uncovered => exact listed
  | unallocated => exact listed
  | unloaded covered named failed => exact read_table_listed listed covered named failed
  | compressed covered named loaded _ rest =>
      have flat := read_compressed_kept rest
      exact keeps (read_table_listed listed covered named loaded) flat.1 flat.2.1
  | plain covered named loaded _ rest =>
      have flat := read_plain_kept rest
      exact keeps (read_table_listed listed covered named loaded) flat.1 flat.2

end Reads

/-! One cluster. -/

section Cluster
variable {q : Qcow} {offset : UInt64}

theorem qcow2_format (second : q.version ≠ qcow1Version) : q.format = qcow2Format := by
  rw [Qcow.format, if_neg second]

theorem copied_table (m : Machine) (second : q.version ≠ qcow1Version)
    (covered : getL1Index q offset < q.tableSize)
    (copied : q.l1Table (getL1Index q offset) &&& qcow2OflagCopied ≠ 0) :
    getClusterTable m q offset =
      match qcowReadL2Table q (l2tOffset q offset) with
      | (none, after) => .ok (none, after)
      | (some l2t, after) => .ok (some (l2t.offset, getL2Index q offset), after) := by
  have reached : ¬ q.tableSize ≤ getL1Index q offset := Nat.not_le.mpr covered
  have inside : ¬ q.l2tSize ≤ getL2Index q offset := Nat.not_le.mpr (l2_index_lt q offset)
  have key : l2tOffset q offset =
      q.l1Table (getL1Index q offset) &&& ~~~qcow2OflagCopied := by
    rw [l2tOffset, qcow2_format second]
    rfl
  rw [key]
  exact (if_neg reached).trans ((if_neg inside).trans (if_pos copied))

theorem flags_copied :
    (qcow2OflagCopied ||| qcow2OflagCompressed) &&& qcow2OflagCopied = qcow2OflagCopied := by
  decide

/-- The entry of the node that a read of the table has linked. -/
theorem cached_entry {after : Qcow} {l2t node : L2Table}
    (read : qcowReadL2Table q (l2tOffset q offset) = (some l2t, after)) (coherent : Coherent after)
    (linked : lookup L2Table.offset l2t.offset after.l2Cache = some node) :
    node.table (getL2Index q offset) = l2Entry q offset.toNat := by
  have kept := read_table_kept read
  have size := kept.l2t_size
  have inside : getL2Index q offset < after.l2tSize := by
    rw [size]
    exact l2_index_lt q offset
  have entry := coherent node (lookup_mem linked) (getL2Index q offset) inside
  rw [entry, size, lookup_key linked, (read_table_found read).1, kept.disk.1]
  rfl

theorem owned_pwrite {here position : Nat} {start : UInt64} {items : List UInt8} {all : Bool}
    {disk : ImageFile} (exclusive : Exclusive q) (coherent : Coherent q) (listed : Listed q)
    (owned : Owned q here) (there : located q here = some position) (word : start.toNat = position)
    (part : here % 2 ^ q.header.clusterBits + items.length ≤ 2 ^ q.header.clusterBits)
    (wrote : pwriteInFull q.disk items start = (all, disk)) :
    ∃ nr, nr ≤ items.length ∧ (all = true → nr = items.length) ∧
      Overwrote q { q with disk := disk } here (items.take nr) ∧
      Coherent { q with disk := disk } ∧ Listed { q with disk := disk } := by
  obtain ⟨nr, written⟩ := pwrite_in_full_spec q.disk items start
  rw [wrote, word] at written
  have fits := written.fits
  have length : (items.take nr).length = nr := by
    rw [List.length_take]
    omega
  have overwrote : Overwrote q { q with disk := disk } here (items.take nr) := by
    apply owned_write exclusive owned there
    · rw [length]
      omega
    · rfl
    · exact written.content
    · exact written.size (owned_inside exclusive owned there part)
  have tables := overwrote.toSameTables
  exact ⟨nr, fits, written.all, overwrote, coherent_same coherent listed tables rfl,
    listed.same tables rfl⟩

/-- A write to an owned cluster reads its table and goes to its place. -/
theorem owned_cluster_eq (m : Machine) (buf : List UInt8) (second : q.version ≠ qcow1Version)
    (narrow : q.header.clusterBits ≤ 62) (coherent : Coherent q) (owned : Owned q offset.toNat)
    (whole : tableWhole q offset) {position : Nat}
    (there : located q offset.toNat = some position) :
    ∃ start : UInt64, start.toNat = position ∧ qcowWriteCluster m q offset buf =
      match qcowReadL2Table q (l2tOffset q offset) with
      | (none, after) => .ok (none, after)
      | (some _, middle) =>
          match pwriteInFull middle.disk
            (buf.take (part q.header.clusterBits offset buf.length)) start with
          | (false, disk) => .ok (none, { middle with disk := disk })
          | (true, disk) =>
              .ok (some (part q.header.clusterBits offset buf.length),
                { middle with disk := disk }) := by
  have inside : ¬ q.clusterSize ≤ getClusterOffset q offset :=
    Nat.not_le.mpr (Nat.mod_lt _ (Nat.two_pow_pos _))
  obtain ⟨covered, named, start, place⟩ := located_named there
  have loads := table_loads covered named whole
  have flags : l2Entry q offset.toNat &&& (qcow2OflagCopied ||| qcow2OflagCompressed) &&&
      qcow2OflagCopied ≠ 0 := by
    rw [UInt64.and_assoc, flags_copied]
    exact owned.entry
  have low : (l2Entry q offset.toNat &&& qcow2OffsetMask).toNat < 2 ^ 62 := by
    rw [UInt64.toNat_and]
    exact Nat.lt_of_le_of_lt Nat.and_le_right (by decide)
  have below : getClusterOffset q offset < 2 ^ 62 :=
    Nat.lt_of_lt_of_le (Nat.mod_lt _ (Nat.two_pow_pos _))
      (Nat.pow_le_pow_right (by omega) narrow)
  have word : ((l2Entry q offset.toNat &&& qcow2OffsetMask) +
      UInt64.ofNat (getClusterOffset q offset)).toNat = position := by
    have mask : q.format.startMask = qcow2OffsetMask := by
      rw [qcow2_format second]
      rfl
    rw [UInt64.toNat_add, UInt64.toNat_ofNat', place, mask]
    unfold getClusterOffset at below ⊢
    omega
  have length (items : List UInt8) (same : items = buf.take
      (part q.header.clusterBits offset buf.length)) :
      items.length = part q.header.clusterBits offset buf.length := by
    have fits := part_le q.header.clusterBits offset buf.length
    rw [same, List.length_take]
    omega
  refine ⟨_, word, ?_⟩
  simp only [qcowWriteCluster, if_neg inside, copied_table m second owned.covered owned.table]
  rcases read : qcowReadL2Table q (l2tOffset q offset) with ⟨found, middle⟩
  cases found with
  | none => rfl
  | some l2t =>
      have now := (read_table_spec coherent loads read).1
      obtain ⟨_, member⟩ := read_table_found read
      obtain ⟨node, linked⟩ : ∃ node, lookup L2Table.offset l2t.offset middle.l2Cache =
        some node := lookup_of_mem member rfl
      have table := cached_entry read now linked
      simp only [bind, Except.bind, linked, table, if_neg flags]
      have count : min (q.clusterSize - getClusterOffset q offset) buf.length =
        part q.header.clusterBits offset buf.length := rfl
      rewrite [count, length _ rfl]
      rfl

/-- A write to an owned cluster stores the first bytes of its part, all of them if it
returns their number, and nothing else. -/
theorem write_cluster_owned (m : Machine) (buf : List UInt8) (second : q.version ≠ qcow1Version)
    (narrow : q.header.clusterBits ≤ 62) (exclusive : Exclusive q) (coherent : Coherent q)
    (listed : Listed q) (owned : Owned q offset.toNat) (whole : tableWhole q offset) :
    ∃ result after nr, qcowWriteCluster m q offset buf = .ok (result, after) ∧
      nr ≤ part q.header.clusterBits offset buf.length ∧
      Overwrote q after offset.toNat (buf.take nr) ∧ Coherent after ∧ Listed after ∧
      (result = none ∨ (result = some (part q.header.clusterBits offset buf.length) ∧
        nr = part q.header.clusterBits offset buf.length)) := by
  obtain ⟨position, there⟩ := Option.isSome_iff_exists.mp owned.somewhere
  obtain ⟨covered, named, _, _⟩ := located_named there
  have loads := table_loads covered named whole
  obtain ⟨start, word, wrote⟩ := owned_cluster_eq m buf second narrow coherent owned whole there
  rw [wrote]
  rcases read : qcowReadL2Table q (l2tOffset q offset) with ⟨found, middle⟩
  have kept := read_table_kept read
  have now := (read_table_spec coherent loads read).1
  have lists := read_table_listed listed covered named read
  cases found with
  | none => exact ⟨none, middle, 0, rfl, Nat.zero_le _, kept_overwrote kept _, now, lists,
      Or.inl rfl⟩
  | some l2t =>
      have ours : Owned middle offset.toNat := ((kept_tables kept).owned _).mpr owned
      have here : located middle offset.toNat = some position := by
        rw [(kept_tables kept).located]
        exact there
      have less := part_le q.header.clusterBits offset buf.length
      generalize items_ : buf.take (part q.header.clusterBits offset buf.length) = items
      have length : items.length = part q.header.clusterBits offset buf.length := by
        rw [← items_, List.length_take]
        omega
      have fits : offset.toNat % 2 ^ middle.header.clusterBits + items.length ≤
          2 ^ middle.header.clusterBits := by
        have below := Nat.mod_lt offset.toNat (Nat.two_pow_pos q.header.clusterBits)
        rw [length, kept.header]
        unfold part
        omega
      rcases stores : pwriteInFull middle.disk items start with ⟨all, disk⟩
      obtain ⟨nr, short, complete, overwrote, coherence, names⟩ :=
        owned_pwrite (exclusive.same (kept_tables kept)) now lists ours here word fits stores
      simp only [stores]
      rw [length] at short complete
      have stored : Overwrote q { middle with disk := disk } offset.toNat (buf.take nr) := by
        have first := (kept_overwrote kept offset.toNat).trans overwrote
        rw [← items_, List.take_take, List.nil_append, Nat.min_eq_left short] at first
        exact first
      cases all with
      | false => exact ⟨none, _, nr, rfl, short, stored, coherence, names, Or.inl rfl⟩
      | true => exact ⟨some _, _, nr, rfl, short, stored, coherence, names,
          Or.inr ⟨rfl, complete rfl⟩⟩

end Cluster

/-! A write. -/

/-- An image of the second version whose clusters and whose cache are in order. -/
structure Intact (q : Qcow) : Prop where
  second : q.version ≠ qcow1Version
  sectors : 9 ≤ q.header.clusterBits
  narrow : q.header.clusterBits ≤ 30
  exclusive : Exclusive q
  coherent : Coherent q
  listed : Listed q

/-- The level 1 table does not reach the part, or the host fails to read its table. -/
def TableLost (q : Qcow) (offset : UInt64) : Prop :=
  q.tableSize ≤ getL1Index q offset ∨
    (¬ Serves q.disk ∧ q.l1Table (getL1Index q offset) &&& qcow2OflagCopied ≠ 0 ∧
      (qcowReadL2Table q (l2tOffset q offset)).1 = none)

/-- Each part that the loop comes to is owned and its table does not come short, or the
loop ends there before it needs a new cluster. -/
def PartsOwned (m : Machine) : Nat → Qcow → UInt64 → List UInt8 → Prop
  | 0, _, _, _ => True
  | turns + 1, q, offset, buf =>
      buf = [] ∨ TableLost q offset ∨
        (Owned q offset.toNat ∧ tableWhole q offset ∧
          ∀ nr after, qcowWriteCluster m q offset buf = .ok (some nr, after) →
            PartsOwned m turns after (offset + UInt64.ofNat nr) (buf.drop nr))

def AllPartsOwned (m : Machine) : List Range → Qcow → (Nat → UInt8) → UInt64 → Prop
  | [], _, _, _ => True
  | entry :: rest, q, memory, sector =>
      let src := readRange memory entry.base (UInt32.ofNat entry.len).toNat
      PartsOwned m src.length q (sector <<< sectorShift) src ∧
        ∀ nr after, qcowWriteSectorSingle m q sector src = .ok (nr, after) →
          AllPartsOwned m rest after memory (sector + UInt64.ofNat (entry.len / 512))

section Loops
variable {q after : Qcow} {offset sector : UInt64} {turns : Nat} {buf : List UInt8}

theorem Intact.overwrote {here : Nat} {items : List UInt8} (intact : Intact q)
    (overwrote : Overwrote q after here items) (coherent : Coherent after) (listed : Listed after) :
    Intact after := by
  have version := congrArg Qcow.version overwrote.same
  have header := overwrote.header
  constructor
  · have same : after.version = q.version := version
    rw [same]
    exact intact.second
  · rw [header]
    exact intact.sectors
  · rw [header]
    exact intact.narrow
  · exact intact.exclusive.same overwrote.toSameTables
  · exact coherent
  · exact listed

/-- Where no table is found without an allocation, nothing is written. -/
theorem write_cluster_lost (m : Machine) (buf : List UInt8) (intact : Intact q)
    (lost : TableLost q offset) :
    ∃ after, qcowWriteCluster m q offset buf = .ok (none, after) ∧ Kept q after ∧
      Intact after := by
  have inside : ¬ q.clusterSize ≤ getClusterOffset q offset :=
    Nat.not_le.mpr (Nat.mod_lt _ (Nat.two_pow_pos _))
  by_cases beyond : q.tableSize ≤ getL1Index q offset
  · refine ⟨q, ?_, Kept.refl q, intact⟩
    simp only [qcowWriteCluster, if_neg inside, getClusterTable, if_pos beyond]
    rfl
  · rcases lost with outside | ⟨_, copied, failed⟩
    · exact absurd outside beyond
    · rcases read : qcowReadL2Table q (l2tOffset q offset) with ⟨found, after⟩
      rw [read] at failed
      subst failed
      have kept := read_table_kept read
      have cached := read_table_none read
      have tables := kept_tables kept
      refine ⟨after, ?_, kept, ?_⟩
      · simp only [qcowWriteCluster, if_neg inside,
          copied_table m intact.second (Nat.not_le.mp beyond) copied, read]
        rfl
      · exact intact.overwrote (kept_overwrote kept 0) (intact.coherent.kept kept cached)
          (intact.listed.same tables cached)

theorem loop_owned (m : Machine) (intact : Intact q) (enough : buf.length ≤ turns)
    (inside : offset.toNat + buf.length ≤ q.header.size.toNat)
    (parts : PartsOwned m turns q offset buf) (nrWritten : Nat) :
    ∃ total after nr, writeSectorLoop m turns q offset buf nrWritten = .ok (total, after) ∧
      nr ≤ buf.length ∧ Overwrote q after offset.toNat (buf.take nr) ∧ Intact after ∧
      (total = -1 ∨ (total = (nrWritten + buf.length : Nat) ∧ nr = buf.length)) := by
  induction turns generalizing q offset buf nrWritten with
  | zero =>
      have none : buf = [] := List.eq_nil_of_length_eq_zero (Nat.le_zero.mp enough)
      subst none
      exact ⟨_, q, 0, rfl, Nat.le_refl _, kept_overwrote (Kept.refl q) _, intact,
        Or.inr ⟨rfl, rfl⟩⟩
  | succ turns ih =>
      rw [writeSectorLoop]
      by_cases none : buf = []
      · subst none
        exact ⟨_, q, 0, rfl, Nat.le_refl _, kept_overwrote (Kept.refl q) _, intact,
          Or.inr ⟨rfl, rfl⟩⟩
      · have positive : 0 < buf.length := List.length_pos_iff.mpr none
        have below : ¬ q.header.size ≤ offset := by
          rw [UInt64.not_le, UInt64.lt_iff_toNat_lt]
          omega
        rw [if_neg none, if_neg below]
        rcases parts with absurd_ | lost | ⟨owned, table, later⟩
        · exact absurd absurd_ none
        · obtain ⟨middle, wrote, kept, next⟩ := write_cluster_lost m buf intact lost
          rw [wrote]
          exact ⟨-1, middle, 0, rfl, Nat.zero_le _, kept_overwrote kept _, next, Or.inl rfl⟩
        · have narrow := intact.narrow
          obtain ⟨result, middle, nr, wrote, fits, overwrote, coherent, listed, outcome⟩ :=
            write_cluster_owned m buf intact.second (by omega) intact.exclusive intact.coherent
              intact.listed owned table
          have next := intact.overwrote overwrote coherent listed
          have short := part_le q.header.clusterBits offset buf.length
          rw [wrote]
          rcases outcome with refused | ⟨done, all⟩
          · rw [refused]
            exact ⟨-1, middle, nr, rfl, by omega, overwrote, next, Or.inl rfl⟩
          · rw [← all] at done short
            subst done
            have rest : (buf.drop nr).length = buf.length - nr := List.length_drop
            have some_ : 0 < nr := by
              rw [all]
              exact part_positive q.header.clusterBits offset positive
            have word := q.header.size.toNat_lt
            have moved : (offset + UInt64.ofNat nr).toNat = offset.toNat + nr := by
              rw [UInt64.toNat_add, UInt64.toNat_ofNat']
              omega
            have length : (buf.take nr).length = nr := by
              rw [List.length_take]
              omega
            obtain ⟨total, last, more, ran, behind, overMore, final, sum⟩ := ih next
              (by omega : (buf.drop nr).length ≤ turns)
              (by rw [moved, overwrote.header]; omega)
              (later nr middle wrote) (nrWritten + nr)
            refine ⟨total, last, nr + more, ran, by omega, ?_, final, ?_⟩
            · rw [List.take_add]
              rw [moved] at overMore
              apply overwrote.trans
              rw [length]
              exact overMore
            · rcases sum with minus | ⟨count, covered⟩
              · exact Or.inl minus
              · exact Or.inr ⟨by rw [count, rest]; omega, by omega⟩

/-- A buffer that ends with its cluster, or before. -/
theorem single_part (m : Machine) (intact : Intact q) (owned : Owned q offset.toNat)
    (whole : tableWhole q offset)
    (fits : part q.header.clusterBits offset buf.length = buf.length) :
    PartsOwned m turns q offset buf := by
  have narrow := intact.narrow
  cases turns with
  | zero => trivial
  | succ turns =>
      refine Or.inr (Or.inr ⟨owned, whole, ?_⟩)
      intro nr after wrote
      obtain ⟨result, _, _, same, _, _, _, _, outcome⟩ := write_cluster_owned m buf intact.second
        (by omega) intact.exclusive intact.coherent intact.listed owned whole
      rw [same] at wrote
      cases wrote
      have all : nr = buf.length := by
        rcases outcome with none | ⟨count, _⟩
        · cases none
        · rw [Option.some.inj count, fits]
      have done : buf.drop nr = [] := by rw [all, List.drop_length]
      rw [done]
      cases turns with
      | zero => trivial
      | succ turns => exact Or.inl rfl

theorem each_owned (m : Machine) {iov : List Range} (memory : Nat → UInt8) (intact : Intact q)
    (short : Described iov) (aligned : ∀ entry ∈ iov, 512 ∣ entry.len)
    (inside : (sector <<< sectorShift).toNat + total iov ≤ q.header.size.toNat)
    (parts : AllPartsOwned m iov q memory sector) (sum : Int) :
    ∃ count after nr, writeEach m iov q memory sector sum = .ok (count, after) ∧
      nr ≤ total iov ∧
      Overwrote q after (sector <<< sectorShift).toNat ((gather memory iov).take nr) ∧
      Intact after ∧ (count = -1 ∨ (count = sum + total iov ∧ nr = total iov)) := by
  induction iov generalizing q sector sum with
  | nil => exact ⟨sum, q, 0, rfl, Nat.le_refl _, kept_overwrote (Kept.refl q) _, intact,
      Or.inr ⟨by simp [total], rfl⟩⟩
  | cons entry rest ih =>
      have word := described_word short
      have limit := q.header.size.toNat_lt
      simp only [total] at inside
      simp only [AllPartsOwned, word] at parts
      have length : (readRange memory entry.base entry.len).length = entry.len := by simp
      obtain ⟨count, middle, nr, wrote, fits, overwrote, next, outcome⟩ := loop_owned m intact
        (Nat.le_refl _) (by omega) parts.1 0
      have single : qcowWriteSectorSingle m q sector (readRange memory entry.base entry.len) =
        .ok (count, middle) := wrote
      have ended (refused : count = -1) : ∃ count after nr,
          writeEach m (entry :: rest) q memory sector sum = .ok (count, after) ∧
          nr ≤ total (entry :: rest) ∧ Overwrote q after (sector <<< sectorShift).toNat
            ((gather memory (entry :: rest)).take nr) ∧
          Intact after ∧ (count = -1 ∨
            (count = sum + total (entry :: rest) ∧ nr = total (entry :: rest))) := by
        have failed : (-1 : Int) ≠ entry.len := by omega
        refine ⟨-1, middle, nr, ?_, ?_, ?_, next, Or.inl rfl⟩
        · rw [writeEach, word, single, refused]
          simp only [bind, Except.bind, ne_eq, failed, not_false_eq_true, if_true]
        · rw [total]
          omega
        · rw [gather, List.take_append_of_le_length fits]
          exact overwrote
      rcases outcome with refused | ⟨done, all⟩
      · exact ended refused
      · rw [Nat.zero_add, length] at done
        rw [length] at all fits
        subst done
        have room : (sector <<< sectorShift).toNat + entry.len < 2 ^ 64 := by omega
        have moved := sector_onward (aligned entry (by simp)) room
        obtain ⟨last, final, more, ran, behind, overMore, kept, tail⟩ := ih next
          (fun e member => short e (by simp [member]))
          (fun e member => aligned e (by simp [member]))
          (by rw [moved, overwrote.header]; omega)
          (parts.2 _ middle single) (sum + entry.len)
        refine ⟨last, final, entry.len + more, ?_, ?_, ?_, kept, ?_⟩
        · rw [writeEach, word, single]
          simp only [bind, Except.bind, ne_eq, not_true_eq_false, if_false]
          exact ran
        · rw [total]
          omega
        · have full : (readRange memory entry.base entry.len).take nr =
              readRange memory entry.base entry.len := by
            rw [all]
            exact List.take_of_length_le (by omega)
          rw [full] at overwrote
          rw [moved] at overMore
          have cut : (gather memory (entry :: rest)).take (entry.len + more) =
              readRange memory entry.base entry.len ++ (gather memory rest).take more := by
            rw [gather, List.take_append, length, List.take_of_length_le (by omega),
              Nat.add_sub_cancel_left]
          rw [cut]
          apply overwrote.trans
          rw [length]
          exact overMore
        · rcases tail with minus | ⟨counted, covered⟩
          · exact Or.inl minus
          · refine Or.inr ⟨?_, ?_⟩
            · rw [counted, total]
              omega
            · rw [covered, total]

end Loops

end VirtioDisk.OwnedClusters
