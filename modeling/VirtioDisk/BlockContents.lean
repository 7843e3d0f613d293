import VirtioDisk.NodeInvariants
import VirtioDisk.RefcountConsistency

/-!
The entries of the refcount blocks, over the cache of their nodes and the file. A
block has the entries of its node when it is cached, and those of the file when it
is not.
-/

namespace VirtioDisk.BlockContents

open NodeCache NodeInvariants QcowNodes ReadWrite
open ByteStore (readRange writeRange getElem_readRange length_readRange writeRange_inside)
open OwnedClusters (pwrite_in_full_spec)
open QcowImage (ImageFile RefcountBlock maxCacheNodes preadInFull)
open QcowReference (SameFile cell pread_in_full_same pread_in_full_spec)
open QcowWrite (Machine be16 be16Bytes entriesBytes)
open RefcountConsistency (Clean WroteInside entries_length storedCount sync_inside pwrite_inside)

/-! The file. -/

/-- The file has these entries at the place of a block. -/
def Stores (size : Nat) (file : File) (offset : UInt64) (content : Nat → UInt16) : Prop :=
  ∀ i < size, storedCount file offset.toNat i = content i

section Stored
variable {disk : ImageFile} {size : Nat} {offset : UInt64} {bytes : List UInt8}

/-- New memory that is filled up to its end has what the file has. -/
theorem loaded_counts (heap : Nat → UInt8)
    (read : (preadInFull disk (2 * size) offset).1 = some bytes)
    (length : bytes.length = 2 * size) : Stores size disk.file offset (be16 heap bytes) := by
  intro i early
  obtain ⟨nr, _, inside, content⟩ := pread_in_full_spec read
  rw [content, length_readRange] at length
  subst length
  have within := inside (by omega)
  have byte (j : Nat) (less : j < 2 * size) :
      bytes.getD j (heap j) = cell disk.file (offset.toNat + j) := by
    rw [content, List.getD_eq_getElem?_getD, List.getElem?_eq_getElem (by simpa using less),
      getElem_readRange, cell, if_pos (by omega)]
    rfl
  simp only [be16, storedCount]
  rw [byte _ (by omega), byte _ (by omega)]
  rfl

theorem entries_byte (entries : Nat → UInt16) {i : Nat} (early : i < size) :
    (entriesBytes entries size)[2 * i]? = some (entries i >>> 8).toUInt8 ∧
      (entriesBytes entries size)[2 * i + 1]? = some (entries i).toUInt8 := by
  induction size generalizing entries i with
  | zero => omega
  | succ size ih =>
      have first : entriesBytes entries (size + 1) =
          be16Bytes (entries 0) ++ entriesBytes (fun i => entries (i + 1)) size := by
        simp only [entriesBytes, List.range_succ_eq_map, List.flatMap_cons, List.flatMap_map]
      rw [first]
      cases i with
      | zero => exact ⟨rfl, rfl⟩
      | succ i =>
          have less : i < size := by omega
          exact ih (fun i => entries (i + 1)) less

theorem halves (entry : UInt16) :
    (entry >>> 8).toUInt8.toUInt16 * 256 + entry.toUInt8.toUInt16 = entry := by
  apply UInt16.toNat_inj.mp
  have bound := entry.toNat_lt
  simp only [UInt16.toNat_add, UInt16.toNat_mul, UInt8.toNat_toUInt16, UInt16.toNat_toUInt8,
    UInt16.toNat_shiftRight, UInt16.reduceToNat, Nat.shiftRight_eq_div_pow, Nat.reduceMod,
    Nat.reducePow]
  omega

/-- A block that was written up to its end is stored. -/
theorem written_counts (clean : Clean disk.file) (offset : UInt64) (entries : Nat → UInt16)
    (size : Nat)
    (written : (QcowWrite.qcowPwriteSync disk (entriesBytes entries size) offset).1 = true) :
    Stores size (QcowWrite.qcowPwriteSync disk (entriesBytes entries size) offset).2.file offset
      entries := by
  intro i early
  have still := (sync_inside clean (entriesBytes entries size) offset).clean
  obtain ⟨nr, _, content, _, all⟩ :=
    pwrite_in_full_spec disk (entriesBytes entries size) offset
  have file : (QcowWrite.qcowPwriteSync disk (entriesBytes entries size) offset).2.file =
        (QcowWrite.pwriteInFull disk (entriesBytes entries size) offset).2.file ∧
      (QcowWrite.pwriteInFull disk (entriesBytes entries size) offset).1 = true := by
    unfold QcowWrite.qcowPwriteSync at written ⊢
    split at written
    · cases written
    · next wrote =>
      rw [wrote]
      exact ⟨rfl, rfl⟩
  have whole := all file.2
  rw [whole, List.take_length, ← file.1] at content
  obtain ⟨high, low⟩ := entries_byte entries early
  have byte {j : Nat} {value : UInt8} (there : (entriesBytes entries size)[j]? = some value) :
      cell (QcowWrite.qcowPwriteSync disk (entriesBytes entries size) offset).2.file
        (offset.toNat + j) = value := by
    obtain ⟨less, same⟩ := List.getElem?_eq_some_iff.mp there
    rw [still.cell, content, writeRange_inside _ _ _ _ less, same]
  rw [storedCount, byte high, Nat.add_assoc, byte low]
  exact halves (entries i)

end Stored

/-! The cache. -/

/-- Every node is linked, and belongs to a block that has a name. -/
structure Blocks (size : Nat) (named : UInt64 → Prop) (rf : Cache RefcountBlock) (file : File) :
    Prop where
  sound : Sound blockKey maxCacheNodes rf
  linked : ∀ p rfb, rf.cells p = some rfb → p ∈ rf.lru
  sized : ∀ p rfb, rf.cells p = some rfb → rfb.size = size
  named : ∀ p rfb, rf.cells p = some rfb → named rfb.offset
  clean : Clean file

/-- A block has these entries. A node that is not dirty has what the file has. -/
def Has (size : Nat) (rf : Cache RefcountBlock) (file : File) (offset : UInt64)
    (content : Nat → UInt16) : Prop :=
  match held blockKey offset.toNat rf with
  | none => Stores size file offset content
  | some rfb => (∀ i < size, rfb.entries i = content i) ∧
      (rfb.dirty = false → Stores size file offset content)

section Cached
variable {size p : Nat} {named : UInt64 → Prop} {rf after : Cache RefcountBlock}
  {file written : File} {offset other : UInt64} {content : Nat → UInt16} {rfb new : RefcountBlock}

theorem has_held (there : held blockKey offset.toNat rf = some rfb) :
    Has size rf file offset content ↔ (∀ i < size, rfb.entries i = content i) ∧
      (rfb.dirty = false → Stores size file offset content) := by
  rw [Has, there]

theorem has_stored (missing : held blockKey offset.toNat rf = none) :
    Has size rf file offset content ↔ Stores size file offset content := by
  rw [Has, missing]

/-- The entries of a block that is cached nowhere else. -/
theorem has_congr (same : held blockKey offset.toNat after = held blockKey offset.toNat rf) :
    Has size after file offset content ↔ Has size rf file offset content := by
  rw [Has, Has, same]

theorem Has.rewritten (has : Has size rf file offset content)
    (same : ∀ i < size, storedCount written offset.toNat i = storedCount file offset.toNat i) :
    Has size rf written offset content := by
  have stores (before : Stores size file offset content) : Stores size written offset content :=
    fun i early => (same i early).trans (before i early)
  cases there : held blockKey offset.toNat rf with
  | none => exact (has_stored there).mpr (stores ((has_stored there).mp has))
  | some rfb =>
      obtain ⟨entries, clean⟩ := (has_held there).mp has
      exact (has_held there).mpr ⟨entries, fun tidy => stores (clean tidy)⟩

theorem Blocks.rewritten (blocks : Blocks size named rf file) (clean : Clean written) :
    Blocks size named rf written :=
  ⟨blocks.sound, blocks.linked, blocks.sized, blocks.named, clean⟩

theorem Blocks.mono {wider : UInt64 → Prop} (blocks : Blocks size named rf file)
    (more : ∀ offset, named offset → wider offset) : Blocks size wider rf file :=
  ⟨blocks.sound, blocks.linked, blocks.sized,
    fun p rfb there => more _ (blocks.named p rfb there), blocks.clean⟩

/-- The node of a block is the one that a search finds. -/
theorem Blocks.held (blocks : Blocks size named rf file) (there : rf.cells p = some rfb) :
    held blockKey rfb.offset.toNat rf = some rfb :=
  blocks.sound.held_linked (blocks.linked p rfb there) there

theorem Blocks.search (blocks : Blocks size named rf file) (offset : UInt64) :
    ∃ after, search blockKey offset.toNat rf = some (find blockKey offset.toNat rf, after) ∧
      Blocks size named after file ∧ after.cells = rf.cells ∧ after.next = rf.next ∧
      ∀ wanted, NodeCache.held blockKey wanted after = NodeCache.held blockKey wanted rf := by
  obtain ⟨after, found, sound, tree, cells, next⟩ := search_sound blocks.sound offset.toNat
  refine ⟨after, found, ⟨sound, ?_, ?_, ?_, blocks.clean⟩, cells, next, ?_⟩
  · intro p rfb there
    rw [cells] at there
    have member := blocks.sound.same.mem_iff.mpr (blocks.linked p rfb there)
    rw [← tree] at member
    exact sound.same.mem_iff.mp member
  · rw [cells]
    exact blocks.sized
  · rw [cells]
    exact blocks.named
  · exact fun wanted => held_congr tree cells

theorem Blocks.store (blocks : Blocks size named rf file) (there : rf.cells p = some rfb)
    (new : RefcountBlock) (sameOffset : new.offset = rfb.offset) (sameSize : new.size = rfb.size) :
    Blocks size named (store p new rf) file := by
  have key : blockKey new = blockKey rfb := congrArg UInt64.toNat sameOffset
  have cell {q : Nat} {found : RefcountBlock}
      (here : (NodeCache.store p new rf).cells q = some found) :
      ∃ old, rf.cells q = some old ∧ found.offset = old.offset ∧ found.size = old.size := by
    change (if q = p then some new else rf.cells q) = some found at here
    split at here
    · next same =>
      cases here
      exact ⟨rfb, same ▸ there, sameOffset, sameSize⟩
    · exact ⟨found, here, rfl, rfl⟩
  refine ⟨blocks.sound.store there key, ?_, ?_, ?_, blocks.clean⟩
  · intro q found here
    obtain ⟨old, before, _, _⟩ := cell here
    exact blocks.linked q old before
  · intro q found here
    obtain ⟨old, before, _, same⟩ := cell here
    exact same.trans (blocks.sized q old before)
  · intro q found here
    obtain ⟨old, before, same, _⟩ := cell here
    rw [same]
    exact blocks.named q old before

theorem Blocks.held_store (blocks : Blocks size named rf file) (there : rf.cells p = some rfb)
    (new : RefcountBlock) (same : new.offset = rfb.offset) (offset : UInt64) :
    NodeCache.held blockKey offset.toNat (NodeCache.store p new rf) =
      if offset = rfb.offset then some new else NodeCache.held blockKey offset.toNat rf := by
  rw [NodeCache.held_store blocks.sound there (congrArg UInt64.toNat same)
    (blocks.linked p rfb there)]
  simp only [blockKey, UInt64.toNat_inj]

/-- The node that makes room for another one is dirty. -/
def DirtyLeaves (rf : Cache RefcountBlock) : Prop :=
  (victim maxCacheNodes rf).map RefcountBlock.dirty = some true

instance (rf : Cache RefcountBlock) : Decidable (DirtyLeaves rf) :=
  inferInstanceAs (Decidable (_ = _))

/-- A new node in the cache: the rest has the entries it had, unless a dirty node left. -/
structure Placed (size : Nat) (named : UInt64 → Prop) (rf : Cache RefcountBlock) (file : File)
    (new : RefcountBlock) (after : Cache RefcountBlock) : Prop where
  blocks : Blocks size (fun offset => named offset ∨ offset = new.offset) after file
  cell : after.cells rf.next = some new
  next : after.next = rf.next + 1
  cells : ∀ q rfb, q ≠ rf.next → after.cells q = some rfb → rf.cells q = some rfb
  others : ¬ DirtyLeaves rf → ∀ offset content, offset ≠ new.offset →
    Has size rf file offset content → Has size after file offset content

theorem Blocks.place (blocks : Blocks size named rf file) (fits : new.size = size)
    (missing : find blockKey (blockKey new) rf = none) :
    ∃ after, link blockKey maxCacheNodes rf.next (malloc new rf) = some after ∧
      Placed size named rf file new after := by
  have unlinked : rf.next ∉ rf.lru := by
    intro linked
    obtain ⟨other, there⟩ := blocks.sound.live _ linked
    exact absurd (blocks.sound.below there) (Nat.lt_irrefl _)
  have made : Sound blockKey maxCacheNodes (malloc new rf) := blocks.sound.malloc new
  have absent : find blockKey (blockKey new) (malloc new rf) = none := by
    rw [← held_none, held_malloc blocks.sound]
    exact held_none.mpr missing
  obtain ⟨after, ran, sound, linked⟩ :=
    link_sound made (by decide) (malloc_cells new rf) unlinked absent
  -- The new node is not the one that leaves.
  have stays : ¬ Leaves maxCacheNodes (malloc new rf) rf.next := by
    intro leaves
    exact unlinked (List.mem_of_mem_head? leaves.2)
  have cell : after.cells rf.next = some new :=
    (linked.stays _ stays).trans (malloc_cells new rf)
  have before {q : Nat} {rfb : RefcountBlock} (there : after.cells q = some rfb) :
      q = rf.next ∧ rfb = new ∨
        ¬ Leaves maxCacheNodes (malloc new rf) q ∧ rf.cells q = some rfb := by
    by_cases leaves : Leaves maxCacheNodes (malloc new rf) q
    · rw [linked.leaves q leaves] at there
      cases there
    · by_cases fresh : q = rf.next
      · rw [fresh, cell] at there
        cases there
        exact .inl ⟨fresh, rfl⟩
      · rw [linked.stays q leaves] at there
        exact .inr ⟨leaves, (if_neg fresh).symm.trans there⟩
  refine ⟨after, ran, ⟨sound, ?_, ?_, ?_, blocks.clean⟩, cell, linked.next, ?_, ?_⟩
  · intro q rfb there
    rcases before there with ⟨fresh, _⟩ | ⟨leaves, old⟩
    · exact (linked.nodes q).mpr (.inl fresh)
    · exact (linked.nodes q).mpr (.inr ⟨blocks.linked q rfb old, leaves⟩)
  · intro q rfb there
    rcases before there with ⟨_, rfl⟩ | ⟨_, old⟩
    · exact fits
    · exact blocks.sized q rfb old
  · intro q rfb there
    rcases before there with ⟨_, rfl⟩ | ⟨_, old⟩
    · exact .inr rfl
    · exact .inl (blocks.named q rfb old)
  · intro q rfb other there
    rcases before there with ⟨fresh, _⟩ | ⟨_, old⟩
    · exact absurd fresh other
    · exact old
  · intro tidy offset content different has
    rw [DirtyLeaves, ← victim_malloc blocks.sound new] at tidy
    have apart : offset.toNat ≠ blockKey new := fun same => different (UInt64.toNat_inj.mp same)
    have was : NodeCache.held blockKey offset.toNat (malloc new rf) =
        NodeCache.held blockKey offset.toNat rf := held_malloc blocks.sound new
    rcases linked.held made sound cell apart with same | ⟨gone, left⟩
    · exact (has_congr (same.trans was)).mpr has
    · rw [has_stored gone]
      rw [left, was] at tidy
      cases there : NodeCache.held blockKey offset.toNat rf with
      | none => exact (has_stored there).mp has
      | some rfb =>
          rw [there] at tidy
          refine ((has_held there).mp has).2 ?_
          simpa using tidy

end Cached

/-! The steps. -/

def Ordered (s : Image) : Prop := Blocks (s.clusterSize / 2) (Named s) s.rf s.disk.file

def Contains (s : Image) (offset : UInt64) (content : Nat → UInt16) : Prop :=
  Has (s.clusterSize / 2) s.rf s.disk.file offset content

section Steps
variable {m : Machine} {s : Image} {p : Nat} {rfb : RefcountBlock} {offset : UInt64}
  {content : Nat → UInt16}

theorem spared_block {disk : ImageFile} (owner : Owner) {base length : Nat}
    (apart : ¬ OverBlock s owner base length) (wrote : WroteInside s.disk disk base length)
    (named : Named s offset) (other : owner.owns offset = false) :
    ∀ i < s.clusterSize / 2,
      storedCount disk.file offset.toNat i = storedCount s.disk.file offset.toNat i := by
  intro i early
  obtain ⟨index, covered, rfl, somewhere⟩ := named
  have clear : ¬ (base < (s.rfTable index).toNat + s.clusterSize ∧
      (s.rfTable index).toNat < base + length) := fun both =>
    apart ⟨index, covered, somewhere, other, both.1, both.2⟩
  have outside (j : Nat) (less : j < s.clusterSize) :
      cell disk.file ((s.rfTable index).toNat + j) =
        cell s.disk.file ((s.rfTable index).toNat + j) := by
    apply wrote.outside
    omega
  simp only [storedCount, Nat.add_assoc]
  rw [outside _ (by omega), outside _ (by omega)]

theorem over_block_noted {owner : Owner} {length : Nat}
    (across : OverBlock s owner offset.toNat length) :
    .overBlock ∈ writeTurns s owner length offset := by
  rw [writeTurns, if_pos across]
  exact List.mem_append_right _ (List.mem_singleton_self _)

/-- The level 1 table in the file. -/
def SameTable (s : Image) (file : File) : Prop :=
  ∀ position, s.header.l1TableOffset.toNat ≤ position →
    position < s.header.l1TableOffset.toNat + 8 * s.tableSize →
    cell file position = cell s.disk.file position

theorem spared_table {disk : ImageFile} (owner : Owner) {length : Nat} (other : owner ≠ .l1Table)
    (clear : .overL1Table ∉ writeTurns s owner length offset)
    (wrote : WroteInside s.disk disk offset.toNat length) : SameTable s disk.file := by
  intro position first last
  apply wrote.outside
  by_contra inside
  apply clear
  rw [writeTurns, if_pos ⟨other, by omega, by omega⟩]
  exact List.mem_append_left _ (List.mem_singleton_self _)

/-- A block that is written is stored with the entries of its node. -/
theorem write_block_ran (clean : Clean s.disk.file) (there : s.rf.cells p = some rfb)
    (dirty : rfb.dirty = true) (owner : Owner) :
    ∃ written turns rf disk,
      writeRefcountBlock owner p s =
        (.ok written, { s with turns := turns ++ s.turns, rf := rf, disk := disk }) ∧
      turns = writeTurns s owner (2 * rfb.size) rfb.offset ∧
      WroteInside s.disk disk rfb.offset.toNat (2 * rfb.size) ∧
      (written = false → rf = s.rf) ∧
      (written = true → rf = store p { rfb with dirty := false } s.rf ∧
        Stores rfb.size disk.file rfb.offset rfb.entries) := by
  have length := entries_length rfb.entries rfb.size
  have wrote := sync_inside clean (entriesBytes rfb.entries rfb.size) rfb.offset
  rw [length] at wrote
  rw [writeRefcountBlock, bind_ok (block_alive there), if_pos dirty, bind_ok (sync_ran ..), length]
  have stored := written_counts clean rfb.offset rfb.entries rfb.size
  cases ran : (QcowWrite.qcowPwriteSync s.disk (entriesBytes rfb.entries rfb.size)
      rfb.offset).1 with
  | false => exact ⟨false, _, s.rf, _, rfl, rfl, wrote, fun _ => rfl, nofun⟩
  | true => exact ⟨true, _, _, _, rfl, rfl, wrote, nofun, fun _ => ⟨rfl, stored ran⟩⟩

/-- The node of a block is written to its place: the block has the entries that it had,
and so has every other block. -/
structure Rewrote (s : Image) (p : Nat) (rfb : RefcountBlock) (written : Bool)
    (turns : List Turn) (rf : Cache RefcountBlock) (disk : ImageFile) : Prop where
  ordered : Ordered { s with rf := rf, disk := disk }
  cells : ∀ q, q ≠ p → rf.cells q = s.rf.cells q
  next : rf.next = s.rf.next
  lru : rf.lru = s.rf.lru
  node : ∃ after, rf.cells p = some after ∧ after.offset = rfb.offset ∧
    (written = true ∨ rfb.dirty = false → after.dirty = false)
  across : rfb.dirty = true →
    OverBlock s (.block rfb.offset) rfb.offset.toNat (2 * rfb.size) → .overBlock ∈ turns
  blocks : (rfb.dirty = true → ¬ OverBlock s (.block rfb.offset) rfb.offset.toNat (2 * rfb.size)) →
    ∀ other content, Named s other → Contains s other content →
      Contains { s with rf := rf, disk := disk } other content
  table : .overL1Table ∉ turns → SameTable s disk.file

theorem own_write (ordered : Ordered s) (there : s.rf.cells p = some rfb) :
    ∃ written turns rf disk,
      writeRefcountBlock (.block rfb.offset) p s =
        (.ok written, { s with turns := turns ++ s.turns, rf := rf, disk := disk }) ∧
      Rewrote s p rfb written turns rf disk := by
  by_cases dirty : rfb.dirty = true
  · obtain ⟨written, turns, rf, disk, ran, noted, wrote, kept, stored⟩ :=
      write_block_ran ordered.clean there dirty (.block rfb.offset)
    have across (_ : rfb.dirty = true)
        (hits : OverBlock s (.block rfb.offset) rfb.offset.toNat (2 * rfb.size)) :
        .overBlock ∈ turns := by
      rw [noted]
      exact over_block_noted hits
    have spared (clear : ¬ OverBlock s (.block rfb.offset) rfb.offset.toNat (2 * rfb.size))
        {other : UInt64} (named : Named s other) (different : other ≠ rfb.offset) :=
      spared_block (.block rfb.offset) clear wrote named
        (by simpa [Owner.owns] using fun same => different same.symm)
    have table (clear : .overL1Table ∉ turns) : SameTable s disk.file := by
      rw [noted] at clear
      exact spared_table (.block rfb.offset) nofun clear wrote
    refine ⟨written, turns, rf, disk, ran, ?_⟩
    cases written with
    | false =>
        have same := kept rfl
        subst same
        refine ⟨Blocks.rewritten ordered wrote.clean, fun _ _ => rfl, rfl, rfl,
          ⟨rfb, there, rfl, fun tidy => tidy.resolve_left nofun⟩, across, ?_, table⟩
        intro clear other content named has
        by_cases own : other = rfb.offset
        · rw [own] at has ⊢
          have here := Blocks.held ordered there
          refine (has_held here).mpr ⟨((has_held here).mp has).1, ?_⟩
          rw [dirty]
          exact nofun
        · exact has.rewritten (spared (clear dirty) named own)
    | true =>
        obtain ⟨same, entries⟩ := stored rfl
        subst same
        have after : (store p { rfb with dirty := false } s.rf).cells p =
          some { rfb with dirty := false } := if_pos rfl
        have still := Blocks.store ordered there { rfb with dirty := false } rfl rfl
        refine ⟨still.rewritten wrote.clean, fun q other => if_neg other, rfl, rfl,
          ⟨_, after, rfl, fun _ => rfl⟩, across, ?_, table⟩
        intro clear other content named has
        have held := Blocks.held_store ordered there { rfb with dirty := false } rfl other
        by_cases own : other = rfb.offset
        · rw [if_pos own] at held
          rw [own] at has held ⊢
          have same := ((has_held (Blocks.held ordered there)).mp has).1
          refine (has_held held).mpr ⟨same, fun _ i early => ?_⟩
          rw [entries i (by rwa [ordered.sized p rfb there])]
          exact same i early
        · rw [if_neg own] at held
          exact (has_congr held).mpr (has.rewritten (spared (clear dirty) named own))
  · have tidy : rfb.dirty = false := by simpa using dirty
    refine ⟨true, [], s.rf, s.disk, ?_, ordered, fun _ _ => rfl, rfl, rfl,
      ⟨rfb, there, rfl, fun _ => tidy⟩, fun other => absurd other dirty,
      fun _ _ _ _ has => has, fun _ _ _ _ => rfl⟩
    rw [writeRefcountBlock, bind_ok (block_alive there), if_neg dirty]
    rfl

/-- The entries of a block after the count of a cluster was changed. -/
def counted (s : Image) (rfb : RefcountBlock) (clustIdx : UInt64) (append : UInt16) :
    Nat → UInt16 := fun i =>
  if i = rfbIndex s clustIdx then rfb.entries (rfbIndex s clustIdx) + append else rfb.entries i

/-- One block has new entries, and the others have theirs. -/
structure Updated (s : Image) (offset : UInt64) (entries : Nat → UInt16) (turns : List Turn)
    (rf : Cache RefcountBlock) (disk : ImageFile) : Prop where
  ordered : Ordered { s with rf := rf, disk := disk }
  next : rf.next = s.rf.next
  offsets : ∀ q after, rf.cells q = some after →
    ∃ before, s.rf.cells q = some before ∧ before.offset = after.offset
  across : OverBlock s (.block offset) offset.toNat (2 * (s.clusterSize / 2)) → .overBlock ∈ turns
  own : ¬ OverBlock s (.block offset) offset.toNat (2 * (s.clusterSize / 2)) →
    Contains { s with rf := rf, disk := disk } offset entries
  others : ¬ OverBlock s (.block offset) offset.toNat (2 * (s.clusterSize / 2)) →
    ∀ other content, other ≠ offset → Named s other →
      Contains s other content → Contains { s with rf := rf, disk := disk } other content
  table : .overL1Table ∉ turns → SameTable s disk.file

theorem reuse_ran (clustIdx : UInt64) (refcount : UInt16) (s : Image) :
    ∃ free, reuseCluster clustIdx refcount s = (.ok (), { s with freeClustIdx := free }) ∧
      (refcount ≠ 0 → free = s.freeClustIdx) := by
  rw [reuseCluster, change]
  split
  · next reused => exact ⟨clustIdx, rfl, fun more => absurd reused.1 more⟩
  · exact ⟨s.freeClustIdx, rfl, fun _ => rfl⟩

theorem update_block_ran (ordered : Ordered s) (there : s.rf.cells p = some rfb)
    (clustIdx : UInt64) (append : UInt16) (inside : rfbIndex s clustIdx < rfb.size) :
    ∃ written turns rf disk free,
      updateBlock p clustIdx append s = (.ok written, { s with
        turns := turns ++ s.turns
        rf := rf
        disk := disk
        freeClustIdx := free
        changedBlocks := fun other => if other = rfb.offset then
          some (counted s rfb clustIdx append) else s.changedBlocks other }) ∧
      Updated s rfb.offset (counted s rfb clustIdx append) turns rf disk ∧
      (rfb.entries (rfbIndex s clustIdx) + append ≠ 0 → free = s.freeClustIdx) := by
  generalize entries_ : counted s rfb clustIdx append = entries
  generalize set : { rfb with dirty := true, entries := entries } = new
  have offset : new.offset = rfb.offset := by rw [← set]
  have set_ran : setRefcount p (rfbIndex s clustIdx) (rfb.entries (rfbIndex s clustIdx) + append) s =
      (.ok (), { s with
        rf := store p new s.rf
        changedBlocks := fun other =>
          if other = rfb.offset then some entries else s.changedBlocks other }) := by
    rw [setRefcount, bind_ok (block_alive there), ← set, ← entries_]
    rfl
  have index : QcowNodes.read (rfbIndex · clustIdx) s = (.ok (rfbIndex s clustIdx), s) := rfl
  rw [updateBlock, bind_ok (block_alive there), bind_ok index, if_neg (Nat.not_le.mpr inside),
    bind_ok set_ran, ← offset]
  have still : Ordered { s with
      rf := store p new s.rf
      changedBlocks := fun other =>
        if other = new.offset then some entries else s.changedBlocks other } :=
    Blocks.store ordered there new offset (by rw [← set])
  have alive : (store p new s.rf).cells p = some new := if_pos rfl
  have held := Blocks.held_store ordered there new offset
  obtain ⟨written, turns, rf, disk, ran, rewrote⟩ := own_write still alive
  have updated : Updated s new.offset entries turns rf disk := by
    have dirty : new.dirty = true := by rw [← set]
    have size : new.size = s.clusterSize / 2 := still.sized p new alive
    refine ⟨rewrote.ordered, rewrote.next, ?_, ?_, ?_, ?_, rewrote.table⟩
    · intro q after here
      by_cases own : q = p
      · obtain ⟨known, same, at_, _⟩ := rewrote.node
        rw [own, same] at here
        cases here
        exact ⟨rfb, own ▸ there, offset.symm.trans at_.symm⟩
      · rw [rewrote.cells q own] at here
        exact ⟨after, (if_neg own).symm.trans here, rfl⟩
    · intro across
      refine rewrote.across dirty ?_
      rw [size]
      exact across
    · intro clear
      rw [← size] at clear
      apply rewrote.blocks (fun _ => clear) new.offset entries (still.named p new alive)
      refine (has_held ((held new.offset).trans (if_pos offset))).mpr ⟨?_, ?_⟩
      · intro i _
        rw [← set]
      · rw [← set]
        nofun
    · intro clear other content different named has
      rw [← size] at clear
      apply rewrote.blocks (fun _ => clear) other content named
      rw [offset] at different
      exact (has_congr ((held other).trans (if_neg different))).mpr has
  rw [bind_ok ran]
  cases written with
  | false => exact ⟨false, turns, rf, disk, s.freeClustIdx, rfl, updated, fun _ => rfl⟩
  | true =>
      obtain ⟨free, reused, kept⟩ := reuse_ran clustIdx (rfb.entries (rfbIndex s clustIdx) + append)
        { s with
          turns := turns ++ s.turns
          rf := rf
          disk := disk
          changedBlocks := fun other =>
            if other = new.offset then some entries else s.changedBlocks other }
      exact ⟨true, turns, rf, disk, free, bind_ok reused, updated, kept⟩

/-! New nodes. -/

/-- What a link adds to the turns. -/
def linkTurns (s : Image) (rfb : RefcountBlock) : List Turn :=
  (if (victim maxCacheNodes s.rf).map RefcountBlock.dirty = some true then [.blockLost] else []) ++
    if (find blockKey (blockKey rfb) s.rf).isSome then [.offsetCached] else []

theorem cache_block_ran (there : s.rf.cells p = some rfb) :
    cacheRefcountBlock p s = linkBlock p { s with turns := linkTurns s rfb ++ s.turns } := by
  rw [cacheRefcountBlock, bind_ok (block_alive there), bind_ok (note_if_ran ..),
    bind_ok (note_if_ran ..), linkTurns, List.append_assoc]
  congr 4
  simp only [decide_eq_true_eq]

/-- The node that was allocated last is linked. -/
theorem cache_new_ran {size : Nat} {named : UInt64 → Prop} {rf : Cache RefcountBlock} {file : File}
    {new : RefcountBlock} (blocks : Blocks size named rf file) (fits : new.size = size)
    (missing : find blockKey (blockKey new) rf = none) (made : s.rf = malloc new rf) :
    ∃ turns after, cacheRefcountBlock rf.next s =
        (.ok (), { s with turns := turns ++ s.turns, rf := after }) ∧
      Blocks size (fun offset => named offset ∨ offset = new.offset) after file ∧
      after.cells rf.next = some new ∧ after.next = rf.next + 1 ∧
      (∀ q rfb, q ≠ rf.next → after.cells q = some rfb → rf.cells q = some rfb) ∧
      (DirtyLeaves rf → .blockLost ∈ turns) ∧
      (¬ DirtyLeaves rf → ∀ other content, other ≠ new.offset →
        Has size rf file other content → Has size after file other content) := by
  obtain ⟨after, linked, placed⟩ := blocks.place fits missing
  have alive : s.rf.cells rf.next = some new := by
    rw [made]
    exact malloc_cells new rf
  rw [cache_block_ran alive]
  refine ⟨linkTurns s new, after, ?_, placed.blocks, placed.cell, placed.next, placed.cells, ?_,
    placed.others⟩
  · rw [linkBlock]
    dsimp only
    rw [made, linked]
  · intro lost
    apply List.mem_append_left
    rw [DirtyLeaves, ← victim_malloc blocks.sound new] at lost
    rw [made, if_pos lost]
    exact List.mem_singleton_self _

/-- The bytes that a read of the block at an offset gives, which may be too few. -/
def readBlock (s : Image) (offset : UInt64) : Option (List UInt8) :=
  (preadInFull s.disk (2 * (s.clusterSize / 2)) offset).1

def WholeRead (s : Image) (offset : UInt64) : Prop :=
  ∀ bytes ∈ readBlock s offset, bytes.length = 2 * (s.clusterSize / 2)

/-- A block that was read has the entries it had, and so has every other block. -/
structure Loaded (s : Image) (offset : UInt64) (turns : List Turn) (rf : Cache RefcountBlock)
    (disk : ImageFile) : Prop where
  file : disk.file = s.disk.file
  ordered : Ordered { s with rf := rf, disk := disk }
  node : ∃ rfb, rf.cells s.rf.next = some rfb ∧ rfb.offset = offset
  next : rf.next = s.rf.next + 1
  cells : ∀ q rfb, q ≠ s.rf.next → rf.cells q = some rfb → s.rf.cells q = some rfb
  read : ∃ bytes, readBlock s offset = some bytes
  lost : DirtyLeaves s.rf → .blockLost ∈ turns
  others : ¬ DirtyLeaves s.rf → ∀ other content, other ≠ offset →
    Contains s other content → Contains { s with rf := rf, disk := disk } other content
  own : WholeRead s offset → ∀ content, Contains s offset content →
    Contains { s with rf := rf, disk := disk } offset content

theorem load_block_ran (m : Machine) (ordered : Ordered s) (named : Named s offset)
    (missing : find blockKey offset.toNat s.rf = none) :
    (∃ disk, disk.file = s.disk.file ∧
      loadRefcountBlock m offset s = (.ok .failed, { s with disk := disk })) ∨
    ∃ turns rf disk,
      loadRefcountBlock m offset s = (.ok (.found s.rf.next), { s with
        turns := turns ++ s.turns
        rf := rf
        disk := disk
        changedBlocks := fun other => if other = offset then none else s.changedBlocks other }) ∧
      Loaded s offset turns rf disk := by
  have size : QcowNodes.read (fun s => s.clusterSize / 2) s = (.ok (s.clusterSize / 2), s) := rfl
  have read : pread (2 * (s.clusterSize / 2)) offset s =
      (.ok (preadInFull s.disk (2 * (s.clusterSize / 2)) offset).1, { s with
        disk := (preadInFull s.disk (2 * (s.clusterSize / 2)) offset).2 }) := rfl
  have file := (pread_in_full_same s.disk (2 * (s.clusterSize / 2)) offset).1
  rw [loadRefcountBlock, bind_ok size, bind_ok read]
  cases outcome : (preadInFull s.disk (2 * (s.clusterSize / 2)) offset).1 with
  | none => exact .inl ⟨_, file, rfl⟩
  | some bytes =>
      generalize made : RefcountBlock.mk offset (s.clusterSize / 2) false (be16 m.heap bytes) = new
      generalize (preadInFull s.disk (2 * (s.clusterSize / 2)) offset).2 = disk at file ⊢
      have at_ : new.offset = offset := by rw [← made]
      have fits : new.size = s.clusterSize / 2 := by rw [← made]
      have absent : find blockKey (blockKey new) s.rf = none := by
        rw [blockKey, at_]
        exact missing
      have before : Ordered { s with disk := disk } := by
        refine Blocks.rewritten ordered ?_
        rw [file]
        exact ordered.clean
      right
      dsimp only
      rw [bind_ok (note_if_ran ..), made]
      generalize short : (if decide (bytes.length < 2 * (s.clusterSize / 2)) = true then
        [Turn.blockShort] else []) = shorts
      let filled : Image := { s with
        disk := disk
        turns := shorts ++ s.turns
        rf := malloc new s.rf
        changedBlocks := fun other => if other = offset then none else s.changedBlocks other }
      have fill : (do
          let rfb ← mallocBlock new
          forgetBlock offset
          cacheRefcountBlock rfb
          pure (.found rfb) : Op BlockRead) { s with disk := disk, turns := shorts ++ s.turns } =
        (cacheRefcountBlock s.rf.next >>= fun _ => pure (.found s.rf.next) : Op BlockRead) filled :=
        rfl
      obtain ⟨turns, rf, ran, blocks, cell, next, cells, lost, others⟩ :=
        cache_new_ran before fits absent (show filled.rf = _ from rfl)
      refine ⟨turns ++ shorts, rf, disk, ?_, ?_⟩
      · rw [fill, bind_ok ran, List.append_assoc]
        rfl
      · refine ⟨file, blocks.mono ?_, ⟨new, cell, at_⟩, next, cells, ⟨bytes, outcome⟩, ?_, ?_, ?_⟩
        · rintro other (old | same)
          · exact old
          · rw [same, at_]
            exact named
        · exact fun dirty => List.mem_append_left _ (lost dirty)
        · intro kept other content different has
          rw [← at_] at different
          refine others kept other content different ?_
          apply has.rewritten
          rw [file]
          exact fun _ _ => rfl
        · intro whole content has
          have stored := (has_stored (held_none.mpr missing)).mp has
          have loaded := loaded_counts m.heap outcome (whole bytes outcome)
          have here : held blockKey offset.toNat rf = some new := by
            have found := blocks.held cell
            rwa [at_] at found
          refine (has_held here).mpr ⟨?_, ?_⟩
          · intro i early
            rw [← made]
            exact (loaded i early).symm.trans (stored i early)
          · intro _ i early
            change storedCount disk.file _ _ = _
            rw [file]
            exact stored i early

/-- The file was written where a block was to grow, and the node was freed again. -/
structure Ungrown (s : Image) (turns : List Turn) (rf : Cache RefcountBlock) (disk : ImageFile) :
    Prop where
  ordered : Ordered { s with rf := rf, disk := disk }
  next : s.rf.next ≤ rf.next
  cells : rf.cells = s.rf.cells
  others : .overBlock ∉ turns → ∀ other content, Named s other → Contains s other content →
    Contains { s with rf := rf, disk := disk } other content
  table : .overL1Table ∉ turns → SameTable s disk.file

/-- The file is written over a refcount block where a new one grows. -/
def GrowsOver (s : Image) (offset : UInt64) : Prop :=
  OverBlock s .data offset.toNat (2 * (s.clusterSize / 2))

instance (s : Image) (offset : UInt64) : Decidable (GrowsOver s offset) :=
  inferInstanceAs (Decidable (OverBlock ..))

theorem grows_over_named (named : Named s offset) (large : 2 ≤ s.clusterSize) :
    GrowsOver s offset := by
  obtain ⟨i, covered, there, somewhere⟩ := named
  refine ⟨i, covered, there ▸ somewhere, rfl, ?_, ?_⟩
  · rw [there]
    omega
  · rw [there]
    omega

def grownTable (s : Image) (rftIdx : Nat) (offset : UInt64) : Nat → UInt64 := fun i =>
  if i = rftIdx then offset else s.rfTable i

/-- A block without counts is in the table and in the cache. -/
structure Grown (s : Image) (rftIdx : Nat) (offset : UInt64) (turns : List Turn)
    (rf : Cache RefcountBlock) (disk : ImageFile) : Prop where
  ordered : Ordered { s with rf := rf, disk := disk, rfTable := grownTable s rftIdx offset }
  node : ∃ rfb, rf.cells s.rf.next = some rfb ∧ rfb.offset = offset
  next : rf.next = s.rf.next + 1
  cells : ∀ q rfb, q ≠ s.rf.next → rf.cells q = some rfb → s.rf.cells q = some rfb
  own : Contains { s with rf := rf, disk := disk } offset fun _ => 0
  across : GrowsOver s offset → .overBlock ∈ turns
  lost : DirtyLeaves s.rf → .blockLost ∈ turns
  others : ¬ GrowsOver s offset → ¬ DirtyLeaves s.rf → ∀ other content, other ≠ offset →
    Named s other → Contains s other content →
      Contains { s with rf := rf, disk := disk } other content
  table : .overL1Table ∉ turns → SameTable s disk.file

theorem store_malloc {Node : Type} (first second : Node) (c : Cache Node) :
    store c.next second (malloc first c) = malloc second c := by
  simp only [store, malloc]
  congr 1
  funext q
  split <;> rfl

theorem free_malloc {Node : Type} {key : Node → Nat} {capacity : Nat} {c : Cache Node}
    (sound : Sound key capacity c) (node : Node) :
    free c.next (malloc node c) = { c with next := c.next + 1 } := by
  simp only [free, malloc, store]
  congr 1
  funext q
  by_cases new : q = c.next
  · rw [if_pos new, new, sound.beyond _ (Nat.le_refl _)]
  · rw [if_neg new, if_neg new]

theorem free_block_ran (there : s.rf.cells p = some rfb) :
    freeBlock p s = (.ok (), { s with rf := free p s.rf }) := by
  rw [freeBlock, bind_ok (block_alive there)]
  rfl

theorem Named.grown {rftIdx : Nat} (absent : Absent s rftIdx) (named : Named s offset)
    (new : UInt64) : Named { s with rfTable := grownTable s rftIdx new } offset := by
  obtain ⟨i, covered, there, somewhere⟩ := named
  refine ⟨i, covered, ?_, somewhere⟩
  rw [← there]
  apply if_neg
  rintro rfl
  exact somewhere (there.symm.trans absent.2)

theorem grow_ran {rftIdx : Nat} (ordered : Ordered s) (absent : Absent s rftIdx)
    (somewhere : offset ≠ 0)
    (fresh : find blockKey offset.toNat s.rf = none ∨
      .offsetCached ∉ (linkGrown rftIdx offset s).2.turns) :
    (∃ turns rf disk, linkGrown rftIdx offset s =
        (.ok none, { s with turns := turns ++ s.turns, rf := rf, disk := disk }) ∧
      Ungrown s turns rf disk) ∨
    ∃ turns rf disk, linkGrown rftIdx offset s = (.ok (some s.rf.next), { s with
        turns := turns ++ s.turns
        rf := rf
        disk := disk
        rfTable := grownTable s rftIdx offset
        changedBlocks := fun other =>
          if other = offset then some fun _ => 0 else s.changedBlocks other }) ∧
      Grown s rftIdx offset turns rf disk := by
  have header : noteIf (fun _ => offset = 0) .headerTaken s = (.ok (), s) :=
    note_if_false _ (by simpa using somewhere)
  have size : QcowNodes.read (fun s => s.clusterSize / 2) s = (.ok (s.clusterSize / 2), s) := rfl
  generalize made : RefcountBlock.mk offset (s.clusterSize / 2) true (fun _ => 0) = new
  generalize stored_ : RefcountBlock.mk offset (s.clusterSize / 2) false (fun _ => 0) = tidy
  have fits : tidy.size = s.clusterSize / 2 := by rw [← stored_]
  have malloced : mallocBlock new s = (.ok s.rf.next, { s with rf := malloc new s.rf }) := rfl
  let filled : Image := { s with rf := malloc new s.rf }
  have alive : filled.rf.cells s.rf.next = some new := malloc_cells new s.rf
  obtain ⟨written, turns, rf, disk, ran, noted, wrote, kept, stored⟩ :=
    write_block_ran (show Clean filled.disk.file from ordered.clean) alive (by rw [← made]) .data
  have at_ : new.offset = offset := by rw [← made]
  have half : new.size = s.clusterSize / 2 := by rw [← made]
  have zeroes : new.entries = fun _ => 0 := by rw [← made]
  rw [at_, half] at noted wrote stored
  rw [zeroes] at stored
  have across (hits : GrowsOver s offset) : .overBlock ∈ turns := by
    rw [noted]
    exact over_block_noted (s := filled) hits
  have spared (clear : ¬ GrowsOver s offset) {other : UInt64} (named : Named s other) :=
    spared_block .data clear wrote named rfl
  have table (clear : .overL1Table ∉ turns) : SameTable s disk.file := by
    rw [noted] at clear
    exact spared_table .data nofun clear wrote
  have after : Ordered { s with disk := disk } := Blocks.rewritten ordered wrote.clean
  rw [linkGrown, bind_ok header, bind_ok size, made, bind_ok malloced, bind_ok ran] at fresh ⊢
  cases written with
  | false =>
      left
      have same := kept rfl
      subst same
      have freed : freeBlock s.rf.next { filled with turns := turns ++ s.turns, disk := disk } =
          (.ok (), { s with
            turns := turns ++ s.turns
            rf := free s.rf.next (malloc new s.rf)
            disk := disk }) := free_block_ran alive
      refine ⟨turns, _, disk, bind_ok freed, ?_⟩
      rw [free_malloc ordered.sound]
      have sound : Sound blockKey maxCacheNodes { s.rf with next := s.rf.next + 1 } := by
        rw [← free_malloc ordered.sound new]
        apply (ordered.sound.malloc new).free
        intro linked
        obtain ⟨other, there⟩ := ordered.sound.live _ linked
        exact absurd (ordered.sound.below there) (Nat.lt_irrefl _)
      have still : Ordered { s with rf := { s.rf with next := s.rf.next + 1 }, disk := disk } :=
        ⟨sound, ordered.linked, ordered.sized, ordered.named, wrote.clean⟩
      refine ⟨still, Nat.le_succ _, rfl, ?_, table⟩
      intro clear other content named has
      have held : held blockKey other.toNat { s.rf with next := s.rf.next + 1 } =
        held blockKey other.toNat s.rf := held_congr rfl rfl
      exact (has_congr held).mpr (has.rewritten (spared (mt across clear) named))
  | true =>
      right
      obtain ⟨same, content⟩ := stored rfl
      have stays : rf = malloc tidy s.rf := by
        rw [same, ← stored_]
        exact store_malloc _ _ s.rf
      have tidyAt : tidy.offset = offset := by rw [← stored_]
      let listed : Image := { s with
        turns := turns ++ s.turns
        rf := rf
        disk := disk
        changedBlocks := fun other =>
          if other = offset then some fun _ => 0 else s.changedBlocks other }
      have list : (do
          change fun s => { s with changedBlocks := fun other =>
            if other = offset then some fun _ => 0 else s.changedBlocks other }
          cacheRefcountBlock s.rf.next
          setRefcountEntry rftIdx offset
          pure (some s.rf.next) : Op (Option Nat))
          { filled with turns := turns ++ s.turns, rf := rf, disk := disk } =
        (do
          cacheRefcountBlock s.rf.next
          setRefcountEntry rftIdx offset
          pure (some s.rf.next) : Op (Option Nat)) listed := rfl
      rw [if_pos rfl, list] at fresh ⊢
      have unheld : find blockKey (blockKey tidy) s.rf = none := by
        rw [blockKey, tidyAt]
        refine fresh.elim id fun fresh => ?_
        rw [← tidyAt]
        by_contra cached
        apply fresh
        have found : (find blockKey (blockKey tidy) listed.rf).isSome = true := by
          rw [show listed.rf = _ from stays, ← Option.ne_none_iff_isSome, ne_eq, ← held_none,
            held_malloc ordered.sound, held_none]
          exact cached
        have alive : listed.rf.cells s.rf.next = some tidy := by
          rw [show listed.rf = _ from stays]
          exact malloc_cells tidy s.rf
        have noted : Turned (· = .offsetCached)
            { listed with turns := linkTurns listed tidy ++ listed.turns } := by
          refine ⟨_, List.mem_append_left _ (List.mem_append_right _ ?_), rfl⟩
          rw [if_pos found]
          exact List.mem_singleton_self _
        have kept : Keeps (Turned (· = .offsetCached)) (do
            linkBlock s.rf.next
            setRefcountEntry rftIdx offset
            pure (some s.rf.next) : Op (Option Nat)) := by
          refine Keeps.bind (turned_link_block _) ?_
          intro _
          exact Keeps.bind (keeps_same fun _ => rfl) fun _ => keeps_pure _
        obtain ⟨turn, taken, rfl⟩ := kept _ noted
        rw [bind_same _ (cache_block_ran alive)]
        exact taken
      obtain ⟨more, placed, linked, blocks, cell, next, cells, lost, others⟩ :=
        cache_new_ran after fits unheld (show listed.rf = _ from stays)
      refine ⟨more ++ turns, placed, disk, ?_, ?_⟩
      · rw [bind_ok linked, List.append_assoc]
        rfl
      · refine ⟨blocks.mono ?_, ⟨tidy, cell, tidyAt⟩, next, cells, ?_, ?_, ?_, ?_, ?_⟩
        · rintro other (old | new)
          · exact Named.grown absent old offset
          · rw [new, tidyAt]
            exact ⟨rftIdx, absent.1, if_pos rfl, somewhere⟩
        · have here := blocks.held cell
          rw [tidyAt] at here
          refine (has_held here).mpr ⟨?_, fun _ => content⟩
          intro i _
          rw [← stored_]
        · exact fun hits => List.mem_append_right _ (across hits)
        · exact fun dirty => List.mem_append_left _ (lost dirty)
        · intro clear kept other content different named has
          rw [← tidyAt] at different
          refine others kept other content different ?_
          exact has.rewritten (spared clear named)
        · exact fun clear => table fun noted => clear (List.mem_append_right _ noted)

end Steps

end VirtioDisk.BlockContents
