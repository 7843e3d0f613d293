import VirtioDisk.QcowImage

/-!
What an image holds at an offset of its disk, by its tables alone: the entry of
the level 1 table, the entry of the table that it names, the cluster, and zeroes
where an entry is zero. A cluster that is read in full, through tables that were
read in full, gives these bytes, whatever the cache holds of the file.
-/

namespace VirtioDisk.QcowReference

open ByteStore LruCache QcowImage ReadWrite
open QcowRead (be64 part)

/-! The host. -/

/-- What no read changes of the image file. -/
def SameFile (disk after : ImageFile) : Prop := after.file = disk.file ∧ after.host = disk.host

section Host
variable {disk : ImageFile} {turns count offset : Nat} {total bytes : List UInt8}

theorem xpread_spec (read : xpread disk count offset = some bytes) :
    ∃ nr, nr ≤ count ∧ nr ≤ disk.file.size - offset ∧
      bytes = readRange disk.file.bytes offset nr := by
  unfold xpread at read
  split at read
  · cases read
  · next most _ =>
      cases read
      exact ⟨_, by omega, by omega, rfl⟩

theorem pread_loop_same (turns : Nat) (disk : ImageFile) (count offset : Nat)
    (total : List UInt8) : SameFile disk (preadLoop turns disk count offset total).2 := by
  induction turns generalizing disk count offset total with
  | zero => exact ⟨rfl, rfl⟩
  | succ turns ih =>
      unfold preadLoop
      split
      · exact ⟨rfl, rfl⟩
      · split
        · exact ⟨rfl, rfl⟩
        · exact ⟨rfl, rfl⟩
        · exact ih disk.called _ _ _

theorem pread_loop_spec (read : (preadLoop turns disk count offset total).1 = some bytes) :
    ∃ nr, nr ≤ count ∧ (0 < nr → offset + nr ≤ disk.file.size) ∧
      bytes = total ++ readRange disk.file.bytes offset nr := by
  induction turns generalizing disk count offset total with
  | zero =>
      cases read
      exact ⟨0, Nat.zero_le _, fun positive => absurd positive (Nat.lt_irrefl 0),
        by simp [readRange]⟩
  | succ turns ih =>
      have ended {some_ : Option (List UInt8)} (same : some_ = some total)
          (read : some_ = some bytes) : ∃ nr, nr ≤ count ∧
            (0 < nr → offset + nr ≤ disk.file.size) ∧
            bytes = total ++ readRange disk.file.bytes offset nr := by
        rw [same] at read
        cases read
        exact ⟨0, Nat.zero_le _, fun positive => absurd positive (Nat.lt_irrefl 0),
          by simp [readRange]⟩
      unfold preadLoop at read
      split at read
      · exact ended rfl read
      · split at read
        · split at read
          · cases read
          · exact ended rfl read
        · split at read
          · cases read
          · exact ended rfl read
        · next first nonempty moved =>
            rcases xpread_spec moved with ⟨nr, fits, inside, content⟩
            have length : first.length = nr := by rw [content, length_readRange]
            rcases ih read with ⟨more, later, covered, result⟩
            rw [length] at later covered result
            have positive : 0 < nr := by
              rw [← length]
              exact List.length_pos_iff.mpr nonempty
            refine ⟨nr + more, by omega, ?_, ?_⟩
            · intro _
              by_cases none : more = 0
              · omega
              · have behind := covered (by omega)
                simp only [ImageFile.called] at behind
                omega
            · rw [result, content, List.append_assoc]
              simp only [ImageFile.called]
              rw [← readRange_append]

/-- A host that refuses nothing, moves on and may stop early only at the end of the file. -/
def Serves (disk : ImageFile) : Prop :=
  ∀ call, ∃ most, 0 < most ∧ disk.host call = .moves most

theorem pread_loop_served (serves : Serves disk) (total : List UInt8) (enough : count ≤ turns)
    (inside : offset + count ≤ disk.file.size) :
    (preadLoop turns disk count offset total).1 =
      some (total ++ readRange disk.file.bytes offset count) := by
  induction turns generalizing disk count offset total with
  | zero =>
      have none : count = 0 := by omega
      simp [preadLoop, none, readRange]
  | succ turns ih =>
      unfold preadLoop
      split
      · next none => simp [none, readRange]
      · rcases serves disk.calls with ⟨most, positive, answer⟩
        have moved : xpread disk count offset =
            some (readRange disk.file.bytes offset (min most count)) := by
          have fits : min most (min count (disk.file.size - offset)) = min most count := by omega
          rw [xpread, answer]
          simp only [fits]
        split
        · next failed =>
            rw [moved] at failed
            cases failed
        · next nothing =>
            rw [moved, Option.some.injEq] at nothing
            have length := congrArg List.length nothing
            simp only [length_readRange, List.length_nil] at length
            omega
        · next first _ again =>
            rw [moved, Option.some.injEq] at again
            have rest : offset + min most count + (count - min most count) ≤
                disk.called.file.size := by
              simp only [ImageFile.called]
              omega
            have onward : Serves disk.called := serves
            have later := ih onward
              (total ++ readRange disk.file.bytes offset (min most count)) (by omega) rest
            rw [← again, length_readRange, later, List.append_assoc]
            simp only [ImageFile.called]
            rw [← readRange_append]
            congr 3
            omega

/-- Such a host stops at the end of the file only. -/
theorem pread_loop_whole (serves : Serves disk) (enough : count ≤ turns)
    (read : (preadLoop turns disk count offset total).1 = some bytes) :
    total.length + min count (disk.file.size - offset) ≤ bytes.length := by
  induction turns generalizing disk count offset total with
  | zero =>
      cases read
      omega
  | succ turns ih =>
      obtain ⟨most, positive, answer⟩ := serves disk.calls
      have moved : xpread disk count offset = some (readRange disk.file.bytes offset
          (min most (min count (disk.file.size - offset)))) := by
        rw [xpread, answer]
      have stuck (none : readRange disk.file.bytes offset
          (min most (min count (disk.file.size - offset))) = []) :
          min count (disk.file.size - offset) = 0 := by
        have length := congrArg List.length none
        rw [length_readRange, List.length_nil] at length
        omega
      unfold preadLoop at read
      rw [moved] at read
      split at read
      · cases read
        omega
      · split at read
        · next failed => cases failed
        · next nothing =>
            have none := stuck (Option.some.inj nothing)
            split at read
            · cases read
            · cases read
              omega
        · next first some_ again =>
            cases again
            have forward := List.length_pos_iff.mpr some_
            rw [length_readRange] at forward
            have onward : Serves disk.called := serves
            have later := ih onward (by rw [length_readRange]; omega) read
            simp only [List.length_append, length_readRange, ImageFile.called] at later
            omega

theorem pread_loop_begun (some_ : total ≠ []) :
    (preadLoop turns disk count offset total).1 ≠ none := by
  induction turns generalizing disk count offset total with
  | zero => simp [preadLoop]
  | succ turns ih =>
      unfold preadLoop
      split
      · simp
      · split
        · exact Option.some_ne_none _
        · exact Option.some_ne_none _
        · exact ih (List.append_ne_nil_of_left_ne_nil some_ _)

theorem pread_loop_starts (serves : Serves disk) (inside : offset < disk.file.size) :
    (preadLoop turns disk count offset []).1 ≠ none := by
  cases turns with
  | zero => simp [preadLoop]
  | succ turns =>
      obtain ⟨most, positive, answer⟩ := serves disk.calls
      unfold preadLoop
      split
      · simp
      · next some_ =>
          split
          · next failed => simp [xpread, answer] at failed
          · next nothing =>
              rw [xpread, answer, Option.some.injEq] at nothing
              have length := congrArg List.length nothing
              simp only [length_readRange, List.length_nil] at length
              omega
          · next first moved _ => exact pread_loop_begun moved

end Host

section InFull
variable {disk : ImageFile} {count : Nat} {offset : UInt64} {bytes : List UInt8}

theorem pread_in_full_same (disk : ImageFile) (count : Nat) (offset : UInt64) :
    SameFile disk (preadInFull disk count offset).2 := by
  unfold preadInFull
  split
  · exact ⟨rfl, rfl⟩
  · exact pread_loop_same count disk count offset.toNat []

theorem pread_in_full_spec (read : (preadInFull disk count offset).1 = some bytes) :
    ∃ nr, nr ≤ count ∧ (0 < nr → offset.toNat + nr ≤ disk.file.size) ∧
      bytes = readRange disk.file.bytes offset.toNat nr := by
  unfold preadInFull at read
  split at read
  · split at read
    · cases read
      exact ⟨0, Nat.zero_le _, fun positive => absurd positive (Nat.lt_irrefl 0),
        by simp [readRange]⟩
    · cases read
  · simpa using pread_loop_spec read

theorem pread_in_full_served (serves : Serves disk) (bounded : disk.file.size ≤ fileMax)
    (inside : offset.toNat + count ≤ disk.file.size) :
    (preadInFull disk count offset).1 = some (readRange disk.file.bytes offset.toNat count) := by
  unfold preadInFull
  rw [if_neg (by omega)]
  simpa using pread_loop_served serves [] (Nat.le_refl count) inside

theorem pread_in_full_whole (serves : Serves disk)
    (read : (preadInFull disk count offset).1 = some bytes) :
    min count (disk.file.size - offset.toNat) ≤ bytes.length ∨ fileMax < offset.toNat := by
  unfold preadInFull at read
  split at read
  · next far => exact Or.inr far
  · have whole := pread_loop_whole serves (Nat.le_refl count) read
    rw [List.length_nil, Nat.zero_add] at whole
    exact Or.inl whole

theorem pread_in_full_starts (serves : Serves disk) (bounded : disk.file.size ≤ fileMax)
    (inside : offset.toNat < disk.file.size) : (preadInFull disk count offset).1 ≠ none := by
  unfold preadInFull
  rw [if_neg (by omega)]
  exact pread_loop_starts serves inside

end InFull

/-! The tables of the file. -/

/-- The file, with zeroes behind its end. -/
def cell (file : File) (position : Nat) : UInt8 :=
  if position < file.size then file.bytes position else 0

/-- The table of `size` entries that the file holds at `base`. -/
def storedTable (file : File) (size base : Nat) : Nat → UInt64 :=
  be64 (readRange (cell file) base (8 * size))

theorem be64_congr {first second : List UInt8} {index other : Nat}
    (same : ∀ i < 8, first.getD (8 * index + i) 0 = second.getD (8 * other + i) 0) :
    be64 first index = be64 second other := by
  have eight : List.range 8 = [0, 1, 2, 3, 4, 5, 6, 7] := rfl
  simp only [be64, eight, List.foldl_cons, List.foldl_nil]
  rw [same 0 (by decide), same 1 (by decide), same 2 (by decide), same 3 (by decide),
    same 4 (by decide), same 5 (by decide), same 6 (by decide), same 7 (by decide)]

theorem getD_readRange (store : Nat → UInt8) (base len index : Nat) :
    (readRange store base len).getD index 0 = if index < len then store (base + index) else 0 := by
  rw [List.getD_eq_getElem?_getD]
  by_cases inside : index < len
  · rw [if_pos inside, List.getElem?_eq_getElem (by simpa using inside), getElem_readRange]
    rfl
  · rw [if_neg inside, List.getElem?_eq_none (by simpa using inside)]
    rfl

/-- An entry of a table is where its eight bytes are. -/
theorem stored_entry {file : File} {size base index : Nat} (early : index < size) :
    storedTable file size base index = be64 (readRange (cell file) (base + 8 * index) 8) 0 := by
  apply be64_congr
  intro i byte
  rw [getD_readRange, getD_readRange, if_pos (by omega), if_pos (by omega), Nat.mul_zero,
    Nat.zero_add, Nat.add_assoc]

theorem stored_beyond {file : File} {size base : Nat} (beyond : file.size ≤ base) (index : Nat) :
    storedTable file size base index = 0 := by
  have zeroes : storedTable file size base index = be64 [] 0 := by
    apply be64_congr
    intro i byte
    rw [getD_readRange]
    split
    · rw [cell, if_neg (by omega)]
      rfl
    · rfl
  rw [zeroes]
  decide

/-- A table that was read up to its end, or up to the end of the file, is the stored one. -/
theorem loaded_table {file : File} {size base nr index : Nat}
    (inside : 0 < nr → base + nr ≤ file.size) (whole : min (8 * size) (file.size - base) ≤ nr)
    (entry : index < size) :
    be64 (readRange file.bytes base nr) index = storedTable file size base index := by
  apply be64_congr
  intro i byte
  rw [getD_readRange, getD_readRange, if_pos (by omega : 8 * index + i < 8 * size), cell]
  by_cases read : 8 * index + i < nr
  · have covered := inside (by omega)
    rw [if_pos read, if_pos (by omega)]
  · rw [if_neg read, if_neg (by omega)]

/-! What a read keeps. -/

/-- `after` is `q` but for the nodes it caches and the calls it has made. -/
structure Kept (q after : Qcow) : Prop where
  same : { after with l2Cache := q.l2Cache, disk := q.disk } = q
  disk : SameFile q.disk after.disk

section Keeping
variable {q middle after : Qcow}

theorem Kept.refl (q : Qcow) : Kept q q := ⟨rfl, rfl, rfl⟩

theorem Kept.trans (first : Kept q middle) (second : Kept middle after) : Kept q after := by
  constructor
  · have back := congrArg (fun r : Qcow => { r with l2Cache := q.l2Cache, disk := q.disk })
      second.same
    exact back.trans first.same
  · exact ⟨second.disk.1.trans first.disk.1, second.disk.2.trans first.disk.2⟩

theorem Kept.header (kept : Kept q after) : after.header = q.header := by
  have same := congrArg Qcow.header kept.same
  exact same

theorem Kept.version (kept : Kept q after) : after.version = q.version := by
  have same := congrArg Qcow.version kept.same
  exact same

theorem Kept.table_size (kept : Kept q after) : after.tableSize = q.tableSize := by
  have same := congrArg Qcow.tableSize kept.same
  exact same

theorem Kept.l1_table (kept : Kept q after) : after.l1Table = q.l1Table := by
  have same := congrArg Qcow.l1Table kept.same
  exact same

theorem Kept.l2t_size (kept : Kept q after) : after.l2tSize = q.l2tSize := by
  rw [Qcow.l2tSize, Qcow.l2tSize, kept.header]

theorem Kept.format (kept : Kept q after) : after.format = q.format := by
  rw [Qcow.format, Qcow.format, kept.version]

theorem kept_disk {disk : ImageFile} (same : SameFile q.disk disk) :
    Kept q { q with disk := disk } := ⟨rfl, same⟩

end Keeping

/-- Every cached node is the table that the file holds. -/
def Coherent (q : Qcow) : Prop :=
  ∀ l2t ∈ q.l2Cache, ∀ index < q.l2tSize,
    l2t.table index = storedTable q.disk.file q.l2tSize l2t.offset.toNat index

/-- No read of the table comes short, but for the end of the file. -/
def loadsWhole (q : Qcow) (offset : UInt64) : Bool :=
  (lookup L2Table.offset offset q.l2Cache).isSome ||
    match (preadInFull q.disk (8 * q.l2tSize) offset).1 with
    | none => true
    | some bytes => min (8 * q.l2tSize) (q.disk.file.size - offset.toNat) ≤ bytes.length

section Tables
variable {q after : Qcow} {offset : UInt64} {found : Option L2Table}

theorem Coherent.kept (coherent : Coherent q) (kept : Kept q after)
    (cached : after.l2Cache = q.l2Cache) : Coherent after := by
  unfold Coherent
  rw [cached, kept.l2t_size, kept.disk.1]
  exact coherent

theorem read_table_kept (read : qcowReadL2Table q offset = (found, after)) : Kept q after := by
  unfold qcowReadL2Table l2TableSearch at read
  split at read
  · next hit =>
      cases read
      obtain ⟨node, _, pair⟩ := Option.map_eq_some_iff.mp hit
      cases pair
      exact ⟨rfl, rfl, rfl⟩
  · have same := pread_in_full_same q.disk (8 * q.l2tSize) offset
    split at read
    · next failed =>
        cases read
        rw [failed] at same
        exact ⟨rfl, same⟩
    · next loaded =>
        cases read
        rw [loaded] at same
        exact ⟨rfl, same⟩

/-- A table that is found is the stored one, and so are all tables cached behind it. -/
theorem read_table_spec (coherent : Coherent q) (whole : loadsWhole q offset)
    (read : qcowReadL2Table q offset = (found, after)) :
    Coherent after ∧ ∀ l2t, found = some l2t → ∀ index < q.l2tSize,
      l2t.table index = storedTable q.disk.file q.l2tSize offset.toNat index := by
  unfold qcowReadL2Table l2TableSearch at read
  split at read
  · next hit =>
      cases read
      obtain ⟨node, there, pair⟩ := Option.map_eq_some_iff.mp hit
      cases pair
      constructor
      · exact forall_touch coherent
      · intro l2t same index entry
        cases same
        rw [coherent _ (lookup_mem there) index entry, lookup_key there]
  · next miss =>
      have same := pread_in_full_same q.disk (8 * q.l2tSize) offset
      split at read
      · next failed =>
          cases read
          rw [failed] at same
          constructor
          · exact coherent.kept (kept_disk same) rfl
          · intro l2t missing
            cases missing
      · next bytes disk loaded =>
          cases read
          rw [loaded] at same
          have content : (preadInFull q.disk (8 * q.l2tSize) offset).1 = some bytes := by
            rw [loaded]
          have absent : lookup L2Table.offset offset q.l2Cache = none := by simpa using miss
          simp only [loadsWhole, absent, content, Option.isSome_none, Bool.false_or,
            decide_eq_true_eq] at whole
          rcases pread_in_full_spec content with ⟨nr, _, inside, read⟩
          rw [read, length_readRange] at whole
          have table (index : Nat) (entry : index < q.l2tSize) :
              be64 bytes index = storedTable q.disk.file q.l2tSize offset.toNat index := by
            rw [read]
            exact loaded_table inside whole entry
          constructor
          · apply forall_insert
            · intro index entry
              have stored : (cacheTable { q with disk := disk }
                  ⟨offset, false, be64 bytes⟩).disk.file = q.disk.file := same.1
              rw [stored]
              exact table index entry
            · exact coherent.kept (kept_disk same) rfl
          · intro l2t new index entry
            cases new
            exact table index entry

end Tables

/-! The reference. -/

/-- Where the file has the byte at `offset` of the disk; nowhere when an entry is zero. -/
def located (q : Qcow) (offset : Nat) : Option Nat :=
  let l1Idx := offset / 2 ^ (q.header.l2Bits + q.header.clusterBits)
  if q.tableSize ≤ l1Idx then none
  else
    let l2tOffset := q.l1Table l1Idx &&& q.format.l2Mask
    if l2tOffset = 0 then none
    else
      let l2Idx := offset / 2 ^ q.header.clusterBits % q.l2tSize
      let entry := storedTable q.disk.file q.l2tSize l2tOffset.toNat l2Idx
      let clustStart := entry &&& q.format.startMask
      if clustStart = 0 then none
      else some (clustStart.toNat + offset % 2 ^ q.header.clusterBits)

def reference (q : Qcow) (offset : Nat) : UInt8 :=
  match located q offset with
  | none => 0
  | some position => cell q.disk.file position

theorem same_cluster {clusterBits offset i : Nat}
    (inside : offset % 2 ^ clusterBits + i < 2 ^ clusterBits) :
    (offset + i) / 2 ^ clusterBits = offset / 2 ^ clusterBits ∧
      (offset + i) % 2 ^ clusterBits = offset % 2 ^ clusterBits + i := by
  have positive : 0 < 2 ^ clusterBits := Nat.two_pow_pos _
  have split := Nat.div_add_mod offset (2 ^ clusterBits)
  constructor
  · rw [← split, Nat.add_assoc, Nat.mul_add_div positive, Nat.mul_add_div positive,
      Nat.div_eq_of_lt inside, Nat.div_eq_of_lt (Nat.mod_lt _ positive)]
  · have short : i < 2 ^ clusterBits := by omega
    rw [Nat.add_mod, Nat.mod_eq_of_lt short, Nat.mod_eq_of_lt inside]

theorem upper_index (position l2Bits clusterBits : Nat) :
    position / 2 ^ (l2Bits + clusterBits) = position / 2 ^ clusterBits / 2 ^ l2Bits := by
  rw [Nat.div_div_eq_div_mul, ← Nat.pow_add, Nat.add_comm]

/-- The part of one cluster lies together in the file. -/
theorem located_part {q : Qcow} {offset i : Nat}
    (inside : offset % 2 ^ q.header.clusterBits + i < 2 ^ q.header.clusterBits) :
    located q (offset + i) = (located q offset).map (· + i) := by
  obtain ⟨same, behind⟩ := same_cluster inside
  simp only [located, upper_index, same, behind]
  split
  · rfl
  · split
    · rfl
    · split
      · rfl
      · simp [Nat.add_assoc]

theorem Kept.reference {q after : Qcow} (kept : Kept q after) :
    reference after = reference q := by
  funext offset
  simp only [QcowReference.reference, located, kept.header, kept.table_size, kept.l1_table,
    kept.l2t_size, kept.format, kept.disk.1]

/-! One cluster. -/

theorem below_top_bit {n : Nat} (word : n < 2 ^ 64) (clear : n &&& 2 ^ 63 = 0) : n < 2 ^ 63 := by
  apply Nat.lt_pow_two_of_testBit
  intro i behind
  rcases Nat.lt_or_eq_of_le behind with later | top
  · exact Nat.testBit_lt_two_pow (Nat.lt_of_lt_of_le word (Nat.pow_le_pow_right (by omega) later))
  · have bit := congrArg (fun m => Nat.testBit m 63) clear
    simp only [Nat.testBit_and, Nat.testBit_two_pow_self, Bool.and_true, Nat.zero_testBit] at bit
    rw [← top]
    exact bit

theorem plain_start_lt {q : Qcow} {entry : UInt64} (plain : entry &&& q.format.compressed = 0) :
    (entry &&& q.format.startMask).toNat < 2 ^ 63 := by
  unfold Qcow.format at plain ⊢
  split
  · next first =>
      rw [if_pos first] at plain
      have clear := congrArg UInt64.toNat plain
      rw [UInt64.toNat_and] at clear ⊢
      exact Nat.lt_of_le_of_lt Nat.and_le_left (below_top_bit entry.toNat_lt clear)
  · rw [UInt64.toNat_and]
    exact Nat.lt_of_le_of_lt Nat.and_le_right (by decide)

/-- What the destination of a cluster that was read in full receives. -/
def ClusterRead.delivered : ClusterRead → Option (List UInt8)
  | .wild | .error => none
  | .zero length => some (List.replicate length 0)
  | .data length bytes => if bytes.length = length then some bytes else none

section Cluster
variable {q after : Qcow} {result : ClusterRead} {bytes : List UInt8}

theorem read_compressed_kept {f : EntryFormat} {entry : UInt64}
    (read : readCompressed f q entry = (result, after)) :
    Kept q after ∧ after.l2Cache = q.l2Cache ∧ (result = .wild ∨ result = .error) := by
  rcases extent : f.extent q.header.clusterBits entry with ⟨offset, count⟩
  have same := pread_in_full_same q.disk count offset
  simp only [readCompressed, extent] at read
  split at read
  · next failed =>
      cases read
      rw [failed] at same
      exact ⟨kept_disk same, rfl, Or.inr rfl⟩
  · next loaded =>
      rw [loaded] at same
      split at read
      · cases read
        exact ⟨kept_disk same, rfl, Or.inl rfl⟩
      · cases read
        exact ⟨kept_disk same, rfl, Or.inr rfl⟩

theorem read_plain_kept {clustStart : UInt64} {clustOffset length : Nat}
    (read : readPlain q clustStart clustOffset length = (result, after)) :
    Kept q after ∧ after.l2Cache = q.l2Cache := by
  unfold readPlain at read
  split at read
  · cases read
    exact ⟨Kept.refl q, rfl⟩
  · have same := pread_in_full_same q.disk length (clustStart + UInt64.ofNat clustOffset)
    split at read
    · next failed =>
        cases read
        rw [failed] at same
        exact ⟨kept_disk same, rfl⟩
    · next loaded =>
        cases read
        rw [loaded] at same
        exact ⟨kept_disk same, rfl⟩

theorem read_plain_spec {clustStart : UInt64} {clustOffset length : Nat}
    (word : clustStart.toNat + clustOffset < 2 ^ 64)
    (read : readPlain q clustStart clustOffset length = (result, after))
    (full : ClusterRead.delivered result = some bytes) :
    bytes = if clustStart = 0 then List.replicate length 0
      else readRange (cell q.disk.file) (clustStart.toNat + clustOffset) length := by
  unfold readPlain at read
  split at read
  · next none =>
      cases read
      cases full
      rw [if_pos none]
  · next some_ =>
      rw [if_neg some_]
      split at read
      · cases read
        cases full
      · next got disk loaded =>
          cases read
          simp only [ClusterRead.delivered] at full
          split at full
          · next complete =>
              cases full
              have content : (preadInFull q.disk length
                  (clustStart + UInt64.ofNat clustOffset)).1 = some bytes := by rw [loaded]
              have place : (clustStart + UInt64.ofNat clustOffset).toNat =
                  clustStart.toNat + clustOffset := by
                rw [UInt64.toNat_add, UInt64.toNat_ofNat']
                omega
              rcases pread_in_full_spec content with ⟨nr, _, inside, read⟩
              rw [place] at inside read
              have all : nr = length := by rw [← complete, read, length_readRange]
              subst all
              rw [read]
              apply List.ext_getElem (by simp)
              intro i here there
              rw [length_readRange] at here
              have covered := inside (by omega)
              rw [getElem_readRange, getElem_readRange, cell, if_pos (by omega)]
          · cases full

theorem read_plain_served {clustStart : UInt64} {clustOffset length : Nat}
    (serves : Serves q.disk) (bounded : q.disk.file.size ≤ fileMax)
    (inside : clustStart ≠ 0 → clustStart.toNat + clustOffset + length ≤ q.disk.file.size)
    (read : readPlain q clustStart clustOffset length = (result, after)) :
    (ClusterRead.delivered result).isSome := by
  unfold readPlain at read
  split at read
  · cases read
    rfl
  · next some_ =>
      have fits := inside some_
      have place : (clustStart + UInt64.ofNat clustOffset).toNat =
          clustStart.toNat + clustOffset := by
        unfold fileMax at bounded
        rw [UInt64.toNat_add, UInt64.toNat_ofNat']
        omega
      rw [← place] at fits
      have served := pread_in_full_served serves bounded fits
      split at read
      · next failed =>
          rw [failed] at served
          cases served
      · next loaded =>
          rw [loaded] at served
          cases read
          cases served
          simp [ClusterRead.delivered]

end Cluster

def l2tOffset (q : Qcow) (offset : UInt64) : UInt64 :=
  q.l1Table (getL1Index q offset) &&& q.format.l2Mask

/-- The ways through `qcow1_read_cluster` and `qcow2_read_cluster`. -/
inductive ClusterCase (q : Qcow) (offset : UInt64) (left : Nat) : ClusterRead → Qcow → Prop where
  | uncovered : q.tableSize ≤ getL1Index q offset → ClusterCase q offset left .error q
  | unallocated : getL1Index q offset < q.tableSize → l2tOffset q offset = 0 →
      ClusterCase q offset left (.zero (part q.header.clusterBits offset left)) q
  | unloaded {after : Qcow} : getL1Index q offset < q.tableSize → l2tOffset q offset ≠ 0 →
      qcowReadL2Table q (l2tOffset q offset) = (none, after) →
      ClusterCase q offset left .error after
  | compressed {l2t : L2Table} {middle after : Qcow} {result : ClusterRead} :
      getL1Index q offset < q.tableSize → l2tOffset q offset ≠ 0 →
      qcowReadL2Table q (l2tOffset q offset) = (some l2t, middle) →
      l2t.table (getL2Index q offset) &&& q.format.compressed ≠ 0 →
      readCompressed q.format middle (l2t.table (getL2Index q offset)) = (result, after) →
      ClusterCase q offset left result after
  | plain {l2t : L2Table} {middle after : Qcow} {result : ClusterRead} :
      getL1Index q offset < q.tableSize → l2tOffset q offset ≠ 0 →
      qcowReadL2Table q (l2tOffset q offset) = (some l2t, middle) →
      l2t.table (getL2Index q offset) &&& q.format.compressed = 0 →
      readPlain middle (l2t.table (getL2Index q offset) &&& q.format.startMask)
        (getClusterOffset q offset) (part q.header.clusterBits offset left) = (result, after) →
      ClusterCase q offset left result after

section Clusters
variable {q after : Qcow} {offset : UInt64} {left : Nat} {result : ClusterRead}
variable {bytes : List UInt8}

theorem qcow_read_cluster_eq (q : Qcow) : qcowReadCluster q = readCluster q.format q := by
  unfold qcowReadCluster Qcow.format
  split
  · rfl
  · rfl

theorem l2_index_lt (q : Qcow) (offset : UInt64) : getL2Index q offset < q.l2tSize :=
  Nat.mod_lt _ (Nat.two_pow_pos _)

theorem read_cluster_cases (read : qcowReadCluster q offset left = (result, after)) :
    ClusterCase q offset left result after := by
  rw [qcow_read_cluster_eq] at read
  simp only [readCluster] at read
  split at read
  · next beyond =>
      cases read
      exact ClusterCase.uncovered beyond
  · next covered =>
      rw [Nat.not_le] at covered
      split at read
      · next outside =>
          have inside : getClusterOffset q offset < q.clusterSize :=
            Nat.mod_lt _ (Nat.two_pow_pos _)
          omega
      · split at read
        · next none =>
            cases read
            exact ClusterCase.unallocated covered none
        · next named =>
            split at read
            · next failed =>
                cases read
                exact ClusterCase.unloaded covered named failed
            · next l2t middle loaded =>
                have kept := read_table_kept loaded
                have index : getL2Index middle offset = getL2Index q offset := by
                  rw [getL2Index, getL2Index, kept.header]
                rw [index, kept.l2t_size] at read
                split at read
                · next outside =>
                    have inside := l2_index_lt q offset
                    omega
                · split at read
                  · next squeezed => exact ClusterCase.compressed covered named loaded squeezed read
                  · next flat =>
                      rw [ne_eq, not_not] at flat
                      exact ClusterCase.plain covered named loaded flat read

theorem read_cluster_kept (read : qcowReadCluster q offset left = (result, after)) :
    Kept q after := by
  cases read_cluster_cases read with
  | uncovered => exact Kept.refl q
  | unallocated => exact Kept.refl q
  | unloaded _ _ failed => exact read_table_kept failed
  | compressed _ _ loaded _ read =>
      exact (read_table_kept loaded).trans (read_compressed_kept read).1
  | plain _ _ loaded _ read => exact (read_table_kept loaded).trans (read_plain_kept read).1

theorem read_cluster_length (read : qcowReadCluster q offset left = (result, after)) :
    result = .wild ∨ result = .error ∨
      result = .zero (part q.header.clusterBits offset left) ∨
      ∃ bytes, result = .data (part q.header.clusterBits offset left) bytes ∧
        bytes.length ≤ part q.header.clusterBits offset left := by
  cases read_cluster_cases read with
  | uncovered => exact Or.inr (Or.inl rfl)
  | unallocated => exact Or.inr (Or.inr (Or.inl rfl))
  | unloaded => exact Or.inr (Or.inl rfl)
  | compressed _ _ _ _ read =>
      exact (read_compressed_kept read).2.2.imp_right Or.inl
  | plain _ _ _ _ read =>
      unfold readPlain at read
      split at read
      · cases read
        exact Or.inr (Or.inr (Or.inl rfl))
      · split at read
        · cases read
          exact Or.inr (Or.inl rfl)
        · next got disk loaded =>
            cases read
            rcases pread_in_full_spec (congrArg Prod.fst loaded) with ⟨nr, fits, _, content⟩
            refine Or.inr (Or.inr (Or.inr ⟨got, rfl, ?_⟩))
            rw [content, length_readRange]
            exact fits

/-- No read of the table that the cluster needs comes short, but for the end of the file. -/
def tableWhole (q : Qcow) (offset : UInt64) : Bool :=
  decide (q.tableSize ≤ getL1Index q offset) || l2tOffset q offset == 0 ||
    loadsWhole q (l2tOffset q offset)

theorem table_loads (covered : getL1Index q offset < q.tableSize)
    (named : l2tOffset q offset ≠ 0) (whole : tableWhole q offset) :
    loadsWhole q (l2tOffset q offset) := by
  simp only [tableWhole, Bool.or_eq_true, decide_eq_true_eq, beq_iff_eq] at whole
  rcases whole with (beyond | none) | loads
  · omega
  · exact absurd none named
  · exact loads

theorem read_cluster_coherent (coherent : Coherent q) (whole : tableWhole q offset)
    (read : qcowReadCluster q offset left = (result, after)) : Coherent after := by
  cases read_cluster_cases read with
  | uncovered => exact coherent
  | unallocated => exact coherent
  | unloaded covered named failed =>
      exact (read_table_spec coherent (table_loads covered named whole) failed).1
  | compressed covered named loaded _ read =>
      have middle := (read_table_spec coherent (table_loads covered named whole) loaded).1
      have rest := read_compressed_kept read
      exact middle.kept rest.1 rest.2.1
  | plain covered named loaded _ read =>
      have middle := (read_table_spec coherent (table_loads covered named whole) loaded).1
      have rest := read_plain_kept read
      exact middle.kept rest.1 rest.2

/-- A part of a cluster that is read in full is what the tables of the file say. -/
theorem read_cluster_delivers (narrow : q.header.clusterBits ≤ 62) (coherent : Coherent q)
    (whole : tableWhole q offset) (read : qcowReadCluster q offset left = (result, after))
    (full : ClusterRead.delivered result = some bytes) :
    bytes = readRange (reference q) offset.toNat (part q.header.clusterBits offset left) := by
  have inside (i : Nat) (early : i < part q.header.clusterBits offset left) :
      offset.toNat % 2 ^ q.header.clusterBits + i < 2 ^ q.header.clusterBits := by
    unfold part at early
    omega
  have zeroes (nowhere : located q offset.toNat = none) :
      List.replicate (part q.header.clusterBits offset left) 0 =
        readRange (reference q) offset.toNat (part q.header.clusterBits offset left) := by
    apply List.ext_getElem (by simp)
    intro i early _
    rw [List.length_replicate] at early
    rw [getElem_readRange, List.getElem_replicate, reference, located_part (inside i early),
      nowhere]
    rfl
  cases read_cluster_cases read with
  | uncovered => cases full
  | unallocated covered none =>
      cases full
      apply zeroes
      unfold l2tOffset getL1Index at none
      simp only [located, none, if_true, ite_self]
  | unloaded => cases full
  | compressed _ _ _ _ read =>
      rcases (read_compressed_kept read).2.2 with same | same
      · rw [same] at full
        cases full
      · rw [same] at full
        cases full
  | @plain l2t middle _ _ covered named loaded flat read =>
      have kept := read_table_kept loaded
      have table := (read_table_spec coherent (table_loads covered named whole) loaded).2 l2t rfl
        (getL2Index q offset) (l2_index_lt q offset)
      have low := plain_start_lt flat
      have below : getClusterOffset q offset < 2 ^ 62 :=
        Nat.lt_of_lt_of_le (Nat.mod_lt _ (Nat.two_pow_pos _))
          (Nat.pow_le_pow_right (by omega) narrow)
      have content := read_plain_spec (by omega) read full
      rw [kept.disk.1] at content
      rw [content]
      unfold getL1Index at covered
      unfold l2tOffset getL1Index at named table
      have place : located q offset.toNat =
          if l2t.table (getL2Index q offset) &&& q.format.startMask = 0 then none
          else some ((l2t.table (getL2Index q offset) &&& q.format.startMask).toNat +
            getClusterOffset q offset) := by
        rw [table]
        simp only [located, if_neg (Nat.not_le.mpr covered), if_neg named]
        rfl
      split
      · next none =>
          rw [if_pos none] at place
          exact zeroes place
      · next some_ =>
          rw [if_neg some_] at place
          apply List.ext_getElem (by simp)
          intro i early _
          rw [length_readRange] at early
          rw [getElem_readRange, getElem_readRange, reference, located_part (inside i early),
            place, Option.map_some]

end Clusters

/-! Every read. -/

section Invariant
variable (holds : Qcow → Prop)

-- What one cluster keeps, the loops keep, whatever they make of the result.
theorem loop_invariant (keeps : ∀ q offset left result after, holds q →
      qcowReadCluster q offset left = (result, after) → holds after)
    (dst fuel : Nat) (dstLen nrRead : UInt32) (q : Qcow) (memory : Nat → UInt8) (buf : Nat)
    (sector : UInt64) (start : holds q) :
    holds (readSectorLoop dst dstLen fuel q memory buf nrRead sector).disk := by
  induction fuel generalizing q memory buf nrRead sector with
  | zero => exact start
  | succ fuel ih =>
      rw [readSectorLoop]
      split
      · split
        · exact start
        · split
          · next result => exact keeps q _ _ _ _ start result
          · next result =>
              split
              · exact keeps q _ _ _ _ start result
              · exact ih _ _ _ _ _ (keeps q _ _ _ _ start result)
      · exact start

theorem each_invariant (keeps : ∀ q offset left result after, holds q →
      qcowReadCluster q offset left = (result, after) → holds after)
    (fuel : Nat) (iov : List Range) (q : Qcow) (memory : Nat → UInt8) (sector : UInt64)
    (sum : Int) (start : holds q) : holds (readEach fuel iov q memory sector sum).disk := by
  induction iov generalizing q memory sector sum with
  | nil => exact start
  | cons entry rest ih =>
      have single : holds (qcowReadSectorSingle fuel q memory sector entry.base
          (UInt32.ofNat entry.len)).disk := loop_invariant holds keeps _ _ _ _ _ _ _ _ start
      rw [readEach]
      split
      · exact single
      · split
        · exact single
        · exact ih _ _ _ _ single

end Invariant

end VirtioDisk.QcowReference
