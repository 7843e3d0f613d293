import VirtioDisk.NodeInvariants

/-!
The nodes that the two caches have linked. As long as no write frees a node that is
linked, or links a node under an offset that is in the cache already, every linked
node is allocated and is once in the tree and once in the list, and the counter is
their number, whatever reads and writes of the file fail.
-/

namespace VirtioDisk.LiveNodes

open ByteStore (Range)
open NodeCache NodeInvariants QcowNodes
open QcowImage (maxCacheNodes)
open QcowWrite (Machine entriesBytes tableBytes)

/-- Whatever is linked is allocated, and once in each of the two structures. -/
structure AllLive {Node : Type} (c : Cache Node) : Prop where
  allocated : ∀ p, p ∈ c.tree ∨ p ∈ c.lru → (c.cells p).isSome
  inTree : ∀ p, p ∈ c.tree ∨ p ∈ c.lru → c.tree.count p = 1
  inList : ∀ p, p ∈ c.tree ∨ p ∈ c.lru → c.lru.count p = 1
  counted : c.nrCached = c.lru.length

def NodesLive (s : Image) : Prop := AllLive s.l2 ∧ AllLive s.rf

/-- The turns of a write that leave a node linked that is not there any more, or not once. -/
def Harmful (turn : Turn) : Prop :=
  turn = .growthUndone ∨ turn = .tableFreed ∨ turn = .offsetCached

structure SoundCaches (s : Image) : Prop where
  tables : Sound tableKey maxCacheNodes s.l2
  blocks : Sound blockKey maxCacheNodes s.rf

theorem Sound.all_live {Node : Type} {key : Node → Nat} {capacity : Nat} {c : Cache Node}
    (sound : Sound key capacity c) : AllLive c := by
  have listed {p : Nat} (linked : p ∈ c.tree ∨ p ∈ c.lru) : p ∈ c.lru :=
    linked.elim sound.same.mem_iff.mp id
  constructor
  · intro p linked
    obtain ⟨node, there⟩ := sound.live p (listed linked)
    rw [there]
    rfl
  · intro p linked
    rw [sound.same.count_eq]
    exact List.count_eq_one_of_mem sound.once (listed linked)
  · intro p linked
    exact List.count_eq_one_of_mem sound.once (listed linked)
  · exact sound.counted

/-- Unless a harmful turn was taken, both caches are sound. -/
def Guarded (s : Image) : Prop := Turned Harmful s ∨ SoundCaches s

section Steps
variable {m : Machine}

/-- What was turned stays so, and the caches are looked at only where nothing was. -/
theorem guarded {Result : Type} {op : Op Result} (turned : Keeps (Turned Harmful) op)
    (sound : Takes SoundCaches Guarded op) : Keeps Guarded op := by
  rintro s (taken | caches)
  · exact .inl (turned s taken)
  · exact sound s caches

/-- The caches are as they were. -/
theorem guarded_same {Result : Type} {op : Op Result} (turned : Keeps (Turned Harmful) op)
    (l2 : ∀ s, (op s).2.l2 = s.l2) (rf : ∀ s, (op s).2.rf = s.rf) : Keeps Guarded op := by
  apply guarded turned
  intro s caches
  right
  constructor
  · rw [l2]
    exact caches.tables
  · rw [rf]
    exact caches.blocks

theorem guarded_note (turn : Turn) (happens : Image → Bool) :
    Keeps Guarded (noteIf happens turn) := by
  apply guarded_same (turned_note turn happens)
  · intro s
    change (if happens s then noted turn s else s).l2 = s.l2
    split <;> rfl
  · intro s
    change (if happens s then noted turn s else s).rf = s.rf
    split <;> rfl

theorem guarded_sync (owner : Owner) (bytes : List UInt8) (offset : UInt64) :
    Keeps Guarded (qcowPwriteSync owner bytes offset) := by
  unfold qcowPwriteSync noteWrite
  refine Keeps.bind (Keeps.bind (guarded_note _ _) fun _ => guarded_note _ _) ?_
  intro _
  exact guarded_same (keeps_same fun _ => rfl) (fun _ => rfl) fun _ => rfl

theorem guarded_write (bytes : List UInt8) (offset : UInt64) :
    Keeps Guarded (pwrite bytes offset) := by
  unfold pwrite noteWrite
  refine Keeps.bind (Keeps.bind (guarded_note _ _) fun _ => guarded_note _ _) ?_
  intro _
  exact guarded_same (keeps_same fun _ => rfl) (fun _ => rfl) fun _ => rfl

theorem guarded_search_table (offset : UInt64) : Keeps Guarded (l2TableSearch offset) := by
  apply guarded (turned_search_table offset)
  intro s caches
  obtain ⟨after, found, sound, _⟩ := search_sound caches.tables offset.toNat
  right
  rw [l2TableSearch, found]
  exact ⟨sound, caches.blocks⟩

theorem guarded_search_block (offset : UInt64) : Keeps Guarded (refcountBlockSearch offset) := by
  apply guarded (turned_search_block offset)
  intro s caches
  obtain ⟨after, found, sound, _⟩ := search_sound caches.blocks offset.toNat
  right
  rw [refcountBlockSearch, found]
  exact ⟨caches.tables, sound⟩

theorem link_table_sound {s : Image} {p : Nat} {c : QcowImage.L2Table} (caches : SoundCaches s)
    (there : s.l2.cells p = some c) (missing : find tableKey (tableKey c) s.l2 = none) :
    SoundCaches (linkTable p s).2 := by
  have unlinked : p ∉ s.l2.lru := by
    intro linked
    rw [caches.tables.find_linked (caches.tables.same.mem_iff.mpr linked) there] at missing
    cases missing
  obtain ⟨after, linked, sound, _⟩ :=
    link_sound caches.tables (by decide) there unlinked missing
  rw [linkTable, linked]
  exact ⟨sound, caches.blocks⟩

theorem link_block_sound {s : Image} {p : Nat} {rfb : QcowImage.RefcountBlock}
    (caches : SoundCaches s) (there : s.rf.cells p = some rfb)
    (missing : find blockKey (blockKey rfb) s.rf = none) : SoundCaches (linkBlock p s).2 := by
  have unlinked : p ∉ s.rf.lru := by
    intro linked
    rw [caches.blocks.find_linked (caches.blocks.same.mem_iff.mpr linked) there] at missing
    cases missing
  obtain ⟨after, linked, sound, _⟩ :=
    link_sound caches.blocks (by decide) there unlinked missing
  rw [linkBlock, linked]
  exact ⟨caches.tables, sound⟩

/-- A node that is linked already would be found under its own offset. -/
theorem guarded_cache_table (p : Nat) : Keeps Guarded (cacheTable p) := by
  apply guarded (turned_cache_table p)
  intro s caches
  unfold cacheTable
  cases there : s.l2.cells p with
  | none =>
      rw [bind_error (table_dead there)]
      exact .inr caches
  | some c =>
      rw [bind_ok (table_alive there)]
      by_cases cached : (find tableKey (tableKey c) s.l2).isSome = true
      · left
        rw [bind_ok (note_if_true _ cached)]
        refine Keeps.bind (turned_note _ _) (fun _ => turned_link_table p) _ ?_
        exact ⟨.offsetCached, List.mem_cons_self, .inr (.inr rfl)⟩
      · have missing : find tableKey (tableKey c) s.l2 = none := by
          rwa [Bool.not_eq_true, Option.isSome_eq_false_iff, Option.isNone_iff_eq_none] at cached
        right
        rw [bind_ok (note_if_false _ cached)]
        by_cases lost : ((victim maxCacheNodes s.l2).map QcowImage.L2Table.dirty) = some true
        · rw [bind_ok (note_if_true _ (decide_eq_true lost))]
          exact link_table_sound ⟨caches.tables, caches.blocks⟩ there missing
        · rw [bind_ok (note_if_false _ (by rwa [decide_eq_true_iff]))]
          exact link_table_sound caches there missing

theorem guarded_cache_block (p : Nat) : Keeps Guarded (cacheRefcountBlock p) := by
  apply guarded (turned_cache_block p)
  intro s caches
  unfold cacheRefcountBlock
  cases there : s.rf.cells p with
  | none =>
      rw [bind_error (block_dead there)]
      exact .inr caches
  | some rfb =>
      rw [bind_ok (block_alive there)]
      by_cases cached : (find blockKey (blockKey rfb) s.rf).isSome = true
      · left
        rw [bind_ok (note_if_true _ cached)]
        refine Keeps.bind (turned_note _ _) (fun _ => turned_link_block p) _ ?_
        exact ⟨.offsetCached, List.mem_cons_self, .inr (.inr rfl)⟩
      · have missing : find blockKey (blockKey rfb) s.rf = none := by
          rwa [Bool.not_eq_true, Option.isSome_eq_false_iff, Option.isNone_iff_eq_none] at cached
        right
        rw [bind_ok (note_if_false _ cached)]
        by_cases lost : ((victim maxCacheNodes s.rf).map QcowImage.RefcountBlock.dirty) = some true
        · rw [bind_ok (note_if_true _ (decide_eq_true lost))]
          exact link_block_sound ⟨caches.tables, caches.blocks⟩ there missing
        · rw [bind_ok (note_if_false _ (by rwa [decide_eq_true_iff]))]
          exact link_block_sound caches there missing

theorem guarded_new_table (c : QcowImage.L2Table) : Keeps Guarded (newCacheTable c) := by
  apply guarded (keeps_same fun _ => rfl)
  intro s caches
  exact .inr ⟨caches.tables.malloc c, caches.blocks⟩

theorem guarded_new_block (rfb : QcowImage.RefcountBlock) : Keeps Guarded (mallocBlock rfb) := by
  apply guarded (keeps_same fun _ => rfl)
  intro s caches
  exact .inr ⟨caches.tables, caches.blocks.malloc rfb⟩

theorem guarded_load_table (offset : UInt64) : Keeps Guarded (loadTable offset) := by
  unfold loadTable
  refine Keeps.bind (keeps_read _) ?_
  intro size
  refine Keeps.bind (guarded_same (keeps_same fun _ => rfl) (fun _ => rfl) fun _ => rfl) ?_
  intro bytes
  cases bytes with
  | none => exact keeps_pure _
  | some bytes =>
      refine Keeps.bind (guarded_new_table _) ?_
      intro l2t
      refine Keeps.bind (guarded_same (keeps_same fun _ => rfl) (fun _ => rfl) fun _ => rfl) ?_
      intro _
      refine Keeps.bind (guarded_cache_table l2t) ?_
      intro _
      exact keeps_pure _

theorem guarded_load_block (offset : UInt64) : Keeps Guarded (loadRefcountBlock m offset) := by
  unfold loadRefcountBlock
  refine Keeps.bind (keeps_read _) ?_
  intro size
  refine Keeps.bind (guarded_same (keeps_same fun _ => rfl) (fun _ => rfl) fun _ => rfl) ?_
  intro bytes
  cases bytes with
  | none => exact keeps_pure _
  | some bytes =>
      refine Keeps.bind (guarded_note _ _) ?_
      intro _
      refine Keeps.bind (guarded_new_block _) ?_
      intro rfb
      refine Keeps.bind (guarded_same (keeps_same fun _ => rfl) (fun _ => rfl) fun _ => rfl) ?_
      intro _
      refine Keeps.bind (guarded_cache_block rfb) ?_
      intro _
      exact keeps_pure _

theorem guarded_next_index : Keeps Guarded nextClustIdx := by
  unfold nextClustIdx
  refine Keeps.bind (keeps_read _) ?_
  intro index
  refine Keeps.bind (guarded_note _ _) ?_
  intro _
  refine Keeps.bind (guarded_same (keeps_same fun _ => rfl) (fun _ => rfl) fun _ => rfl) ?_
  intro _
  exact keeps_pure _

/-! Changes of a node. -/

theorem cache_write_ran {s : Image} {p : Nat} {c : QcowImage.L2Table}
    (there : s.l2.cells p = some c) :
    ∃ written after, qcowL2CacheWrite p s = (.ok written, after) ∧ after.rf = s.rf ∧
      (after.l2 = s.l2 ∨ after.l2 = store p { c with dirty := false } s.l2) := by
  rw [qcowL2CacheWrite, bind_ok (table_alive there)]
  by_cases dirty : c.dirty = true
  · rw [if_pos dirty]
    have read : QcowNodes.read Image.l2tSize s = (.ok s.l2tSize, s) := rfl
    rw [bind_ok read, bind_ok (sync_ran ..)]
    cases (QcowWrite.qcowPwriteSync s.disk (tableBytes c.table s.l2tSize) c.offset).1 with
    | false => exact ⟨false, _, rfl, rfl, .inl rfl⟩
    | true => exact ⟨true, _, rfl, rfl, .inr rfl⟩
  · rw [if_neg dirty]
    exact ⟨true, s, rfl, rfl, .inl rfl⟩

theorem write_block_ran {s : Image} {p : Nat} {rfb : QcowImage.RefcountBlock} (owner : Owner)
    (there : s.rf.cells p = some rfb) :
    ∃ written after, writeRefcountBlock owner p s = (.ok written, after) ∧ after.l2 = s.l2 ∧
      (after.rf = s.rf ∨ after.rf = store p { rfb with dirty := false } s.rf) := by
  rw [writeRefcountBlock, bind_ok (block_alive there)]
  by_cases dirty : rfb.dirty = true
  · rw [if_pos dirty]
    rw [bind_ok (sync_ran ..)]
    cases (QcowWrite.qcowPwriteSync s.disk (entriesBytes rfb.entries rfb.size) rfb.offset).1 with
    | false => exact ⟨false, _, rfl, rfl, .inl rfl⟩
    | true => exact ⟨true, _, rfl, rfl, .inr rfl⟩
  · rw [if_neg dirty]
    exact ⟨true, s, rfl, rfl, .inl rfl⟩

theorem SoundCaches.cache_write {s after : Image} {p : Nat} {c : QcowImage.L2Table}
    (caches : SoundCaches s) (there : s.l2.cells p = some c) (rf : after.rf = s.rf)
    (l2 : after.l2 = s.l2 ∨ after.l2 = store p { c with dirty := false } s.l2) :
    SoundCaches after := by
  constructor
  · rcases l2 with same | stored
    · rw [same]
      exact caches.tables
    · rw [stored]
      exact caches.tables.store there rfl
  · rw [rf]
    exact caches.blocks

theorem SoundCaches.write_block {s after : Image} {p : Nat} {rfb : QcowImage.RefcountBlock}
    (caches : SoundCaches s) (there : s.rf.cells p = some rfb) (l2 : after.l2 = s.l2)
    (rf : after.rf = s.rf ∨ after.rf = store p { rfb with dirty := false } s.rf) :
    SoundCaches after := by
  constructor
  · rw [l2]
    exact caches.tables
  · rcases rf with same | stored
    · rw [same]
      exact caches.blocks
    · rw [stored]
      exact caches.blocks.store there rfl

theorem guarded_cache_write (p : Nat) : Keeps Guarded (qcowL2CacheWrite p) := by
  apply guarded (turned_cache_write p)
  intro s caches
  right
  cases there : s.l2.cells p with
  | none =>
      rw [qcowL2CacheWrite, bind_error (table_dead there)]
      exact caches
  | some c =>
      obtain ⟨written, after, ran, rf, l2⟩ := cache_write_ran there
      rw [ran]
      exact caches.cache_write there rf l2

theorem guarded_dirty_table (p : Nat) : Keeps Guarded (dirtyTable p) := by
  apply guarded (Keeps.bind (keeps_table_at p) fun _ => keeps_same fun _ => rfl)
  intro s caches
  right
  cases there : s.l2.cells p with
  | none =>
      rw [bind_error (table_dead there)]
      exact caches
  | some c =>
      rw [bind_ok (table_alive there)]
      exact ⟨caches.tables.store there rfl, caches.blocks⟩

theorem guarded_note_table (p : Nat) : Keeps Guarded (noteTable p) := by
  unfold noteTable
  refine Keeps.bind (keeps_table_at p) ?_
  intro c
  exact guarded_same (keeps_same fun _ => rfl) (fun _ => rfl) fun _ => rfl

theorem guarded_set_entry (p index : Nat) (entry : UInt64) :
    Keeps Guarded (setTableEntry p index entry) := by
  apply guarded (turned_set_entry p index entry)
  intro s caches
  cases there : s.l2.cells p with
  | none =>
      rw [setTableEntry, bind_error (table_dead there)]
      exact .inr caches
  | some c =>
      rw [setTableEntry, bind_ok (table_alive there)]
      exact guarded_note_table p _ (.inr ⟨caches.tables.store there rfl, caches.blocks⟩)

theorem guarded_write_block (owner : Owner) (p : Nat) :
    Keeps Guarded (writeRefcountBlock owner p) := by
  apply guarded (turned_write_block owner p)
  intro s caches
  right
  cases there : s.rf.cells p with
  | none =>
      rw [writeRefcountBlock, bind_error (block_dead there)]
      exact caches
  | some rfb =>
      obtain ⟨written, after, ran, l2, rf⟩ := write_block_ran owner there
      rw [ran]
      exact caches.write_block there l2 rf

theorem guarded_set_refcount (p index : Nat) (refcount : UInt16) :
    Keeps Guarded (setRefcount p index refcount) := by
  apply guarded (turned_set_refcount p index refcount)
  intro s caches
  right
  cases there : s.rf.cells p with
  | none =>
      rw [setRefcount, bind_error (block_dead there)]
      exact caches
  | some rfb =>
      rw [setRefcount, bind_ok (block_alive there)]
      exact ⟨caches.tables, caches.blocks.store there rfl⟩

theorem guarded_update_block (p : Nat) (clustIdx : UInt64) (append : UInt16) :
    Keeps Guarded (updateBlock p clustIdx append) := by
  unfold updateBlock
  refine Keeps.bind (keeps_block_at p) ?_
  intro rfb
  refine Keeps.bind (keeps_read _) ?_
  intro index
  split
  · exact keeps_pure _
  · refine Keeps.bind (guarded_set_refcount _ _ _) ?_
    intro _
    refine Keeps.bind (guarded_write_block _ _) ?_
    intro written
    split
    · refine Keeps.bind ?_ fun _ => keeps_pure _
      apply guarded_same (turned_reuse clustIdx _)
      · intro s
        rw [reuseCluster, change]
        split <;> rfl
      · intro s
        rw [reuseCluster, change]
        split <;> rfl
    · exact keeps_pure _

/-- A new node that is not written is not linked either. -/
theorem guarded_grow (rftIdx : Nat) (offset : UInt64) : Keeps Guarded (linkGrown rftIdx offset) := by
  apply guarded (turned_grow rftIdx offset)
  intro start opened
  rw [linkGrown, bind_ok (note_if_ran ..)]
  generalize noted : { start with turns := _ } = s
  have caches : SoundCaches s := by
    rw [← noted]
    exact ⟨opened.tables, opened.blocks⟩
  have read : QcowNodes.read (fun s => s.clusterSize / 2) s = (.ok (s.clusterSize / 2), s) := rfl
  rw [bind_ok read]
  generalize rfb : QcowImage.RefcountBlock.mk offset (s.clusterSize / 2) true (fun _ => 0) = node
  have made : mallocBlock node s = (.ok s.rf.next, { s with rf := malloc node s.rf }) := rfl
  rw [bind_ok made]
  have sound : SoundCaches { s with rf := malloc node s.rf } :=
    ⟨caches.tables, caches.blocks.malloc node⟩
  have unlinked : s.rf.next ∉ s.rf.lru := by
    intro linked
    obtain ⟨other, there⟩ := caches.blocks.live _ linked
    exact absurd (caches.blocks.below there) (Nat.lt_irrefl _)
  obtain ⟨written, after, ran, l2, rf⟩ :=
    write_block_ran .data (s := { s with rf := malloc node s.rf }) (malloc_cells node s.rf)
  have still := sound.write_block (malloc_cells node s.rf) l2 rf
  rw [bind_ok ran]
  cases written with
  | true =>
      refine (show Keeps Guarded _ from Keeps.bind
        (guarded_same (keeps_same fun _ => rfl) (fun _ => rfl) fun _ => rfl) ?_) _ (.inr still)
      intro _
      refine Keeps.bind (guarded_cache_block _) ?_
      intro _
      refine Keeps.bind (guarded_same (keeps_same fun _ => rfl) (fun _ => rfl) fun _ => rfl) ?_
      intro _
      exact keeps_pure _
  | false =>
      right
      have absent : s.rf.next ∉ after.rf.lru := by
        rcases rf with same | stored
        · rw [same]
          exact unlinked
        · rw [stored]
          exact unlinked
      obtain ⟨node, alive⟩ : ∃ node, after.rf.cells s.rf.next = some node := by
        rcases rf with same | stored
        · rw [same]
          exact ⟨_, malloc_cells _ s.rf⟩
        · rw [stored]
          exact ⟨_, if_pos rfl⟩
      have freed : freeBlock s.rf.next after =
          (.ok (), { after with rf := free s.rf.next after.rf }) := by
        rw [freeBlock, bind_ok (block_alive alive)]
        rfl
      rw [if_neg Bool.false_ne_true, bind_ok freed]
      exact ⟨still.tables, still.blocks.free absent⟩

theorem guarded_undo (rfb rftIdx : Nat) : Keeps Guarded (undoGrowth rfb rftIdx) := by
  intro s _
  left
  have noted : note .growthUndone s = (.ok (), noted .growthUndone s) := rfl
  rw [undoGrowth, bind_ok noted]
  refine Keeps.bind (keeps_same fun _ => rfl) ?_ _ ⟨.growthUndone, List.mem_cons_self, .inl rfl⟩
  intro _
  exact Keeps.bind (turned_free_block rfb) fun _ => keeps_pure _

theorem guarded_read_table (offset : UInt64) : Keeps Guarded (qcowReadL2Table offset) := by
  unfold qcowReadL2Table
  refine Keeps.bind (guarded_search_table offset) ?_
  intro found
  cases found with
  | none => exact guarded_load_table offset
  | some l2t => exact keeps_pure _

theorem guarded_copied_table
    (frees : ∀ start size, Keeps Guarded (qcowFreeClusters m start size))
    (old new size : UInt64) : Keeps Guarded (copiedTable m old new size) := by
  unfold copiedTable
  refine Keeps.bind (guarded_new_table _) ?_
  intro node
  split
  · exact keeps_pure _
  · refine Keeps.bind (guarded_read_table old) ?_
    intro found
    cases found with
    | none =>
        refine Keeps.bind (frees _ _) ?_
        intro _
        exact keeps_pure _
    | some l2t => exact keeps_pure _

/-- A table that is linked is not freed without notice. -/
theorem guarded_free_linked (m : Machine) (l2t : Nat) (new size : UInt64) :
    Keeps Guarded (freeCache m l2t true new size) := by
  intro s _
  left
  rw [freeCache, bind_ok (note_if_true .tableFreed rfl)]
  refine Keeps.bind (turned_free_table l2t) ?_ _
    ⟨.tableFreed, List.mem_cons_self, .inr (.inl rfl)⟩
  intro _
  refine Keeps.bind ((kept_turned m Harmful).free_clusters _ _) ?_
  intro _
  exact keeps_pure _

/-- What follows once the table is written. -/
theorem guarded_moved (frees : ∀ start size, Keeps Guarded (qcowFreeClusters m start size))
    (l1tIdx l2t : Nat) (old new size : UInt64) : Keeps Guarded (do
      cacheTable l2t
      noteTable l2t
      setL1Entry l1tIdx (new ||| QcowRead.qcow2OflagCopied)
      let stored ← qcowWriteL1Table
      if stored then
        qcowFreeClusters m old size
        pure (some l2t)
      else freeCache m l2t true new size) := by
  refine Keeps.bind (guarded_cache_table l2t) ?_
  intro _
  refine Keeps.bind (guarded_note_table l2t) ?_
  intro _
  refine Keeps.bind (guarded_same (keeps_same fun _ => rfl) (fun _ => rfl) fun _ => rfl) ?_
  intro _
  refine Keeps.bind ?_ ?_
  · unfold qcowWriteL1Table
    refine Keeps.bind (keeps_read _) ?_
    intro bytes
    refine Keeps.bind (keeps_read _) ?_
    intro offset
    exact guarded_sync _ _ _
  · intro stored
    split
    · refine Keeps.bind (frees _ _) ?_
      intro _
      exact keeps_pure _
    · exact guarded_free_linked m _ _ _

theorem guarded_move_table (frees : ∀ start size, Keeps Guarded (qcowFreeClusters m start size))
    (l1tIdx : Nat) (old new : UInt64) : Keeps Guarded (moveTable m l1tIdx old new) := by
  by_cases first : old = 0
  · -- The new table is not linked yet where it may be freed.
    apply guarded (turned_move_table (kept_turned m Harmful).free_clusters l1tIdx old new)
    intro s caches
    generalize made : QcowImage.L2Table.mk new false (fun _ => 0) = node
    have copied : copiedTable m old new (UInt64.ofNat s.clusterSize) s =
        (.ok (some s.l2.next), { s with l2 := malloc node s.l2 }) := by
      have new : newCacheTable node s = (.ok s.l2.next, { s with l2 := malloc node s.l2 }) := rfl
      rw [copiedTable, made, bind_ok new, if_pos first]
      rfl
    have unlinked : s.l2.next ∉ s.l2.lru := by
      intro linked
      obtain ⟨other, there⟩ := caches.tables.live _ linked
      exact absurd (caches.tables.below there) (Nat.lt_irrefl _)
    have size : QcowNodes.read (fun s => UInt64.ofNat s.clusterSize) s =
        (.ok (UInt64.ofNat s.clusterSize), s) := rfl
    have dirtied : dirtyTable s.l2.next { s with l2 := malloc node s.l2 } =
        (.ok (), { s with
          l2 := store s.l2.next { node with dirty := true } (malloc node s.l2) }) := by
      rw [dirtyTable, bind_ok (table_alive (malloc_cells node s.l2))]
      rfl
    rw [moveTable, bind_ok size, bind_ok copied]
    dsimp only
    rw [bind_ok dirtied]
    have sound : SoundCaches { s with
        l2 := store s.l2.next { node with dirty := true } (malloc node s.l2) } :=
      ⟨(caches.tables.malloc node).store (malloc_cells node s.l2) rfl, caches.blocks⟩
    have alive : (store s.l2.next { node with dirty := true } (malloc node s.l2)).cells
        s.l2.next = some { node with dirty := true } := if_pos rfl
    obtain ⟨written, after, ran, rf, l2⟩ := cache_write_ran (s := { s with
      l2 := store s.l2.next { node with dirty := true } (malloc node s.l2) }) alive
    have still := sound.cache_write alive rf l2
    rw [bind_ok ran]
    cases written with
    | true => exact guarded_moved frees l1tIdx s.l2.next old new _ after (.inr still)
    | false =>
        have absent : s.l2.next ∉ after.l2.lru := by
          rcases l2 with same | stored
          · rw [same]
            exact unlinked
          · rw [stored]
            exact unlinked
        have quiet : ¬ (fun _ : Image => decide (old ≠ 0)) after = true := by simp [first]
        obtain ⟨there, alive⟩ : ∃ c, after.l2.cells s.l2.next = some c := by
          rcases l2 with same | stored
          · rw [same]
            exact ⟨_, alive⟩
          · rw [stored]
            exact ⟨_, if_pos rfl⟩
        have freed : freeTable s.l2.next after =
            (.ok (), { after with l2 := free s.l2.next after.l2 }) := by
          rw [freeTable, bind_ok (table_alive alive)]
          rfl
        rw [if_neg Bool.false_ne_true, freeCache, bind_ok (note_if_false .tableFreed quiet),
          bind_ok freed]
        exact (show Keeps Guarded _ from Keeps.bind (frees _ _) fun _ => keeps_pure _) _
          (.inr ⟨still.tables.free absent, still.blocks⟩)
  · unfold moveTable
    refine Keeps.bind (keeps_read _) ?_
    intro size
    refine Keeps.bind (guarded_copied_table frees _ _ _) ?_
    intro found
    cases found with
    | none => exact keeps_pure _
    | some l2t =>
        refine Keeps.bind (guarded_dirty_table l2t) ?_
        intro _
        refine Keeps.bind (guarded_cache_write l2t) ?_
        intro written
        split
        · exact guarded_moved frees l1tIdx l2t old new _
        · rw [decide_eq_true first]
          exact guarded_free_linked m _ _ _

theorem kept_guarded (m : Machine) : Kept m Guarded where
  searchTable := guarded_search_table
  searchBlock := guarded_search_block
  loadTable := guarded_load_table
  loadBlock := fun offset s both => guarded_load_block offset s both.1
  read := fun _ _ => guarded_same (keeps_same fun _ => rfl) (fun _ => rfl) fun _ => rfl
  write := guarded_write
  nextIndex := guarded_next_index
  grow := fun rftIdx offset s both => guarded_grow rftIdx offset s both.1
  undo := guarded_undo
  writeTable := by
    unfold qcowWriteRefcountTable
    refine Keeps.bind (keeps_read _) ?_
    intro bytes
    refine Keeps.bind (keeps_read _) ?_
    intro offset
    exact guarded_sync _ _ _
  noteGone := guarded_note _
  updateBlock := guarded_update_block
  copyBuff := fun _ _ => guarded_same (keeps_same fun _ => rfl) (fun _ => rfl) fun _ => rfl
  cacheWrite := guarded_cache_write
  storeCopy := fun frees table l2tIdx => keeps_store_copy frees
    (fun _ _ => guarded_same (keeps_same fun _ => rfl) (fun _ => rfl) fun _ => rfl)
    guarded_write guarded_set_entry guarded_cache_write table l2tIdx (-1)
  moveTable := fun frees l1tIdx old => guarded_move_table frees l1tIdx old (-1)

end Steps

/-! Runs. -/

structure WriteRequest where
  memory : Nat → UInt8
  sector : UInt64
  iov : List Range

def writes (m : Machine) : List WriteRequest → Op Unit
  | [] => pure ()
  | request :: rest => do
      let _ ← qcowWriteSector m request.memory request.sector request.iov
      writes m rest

theorem Kept.writes {m : Machine} {holds : Image → Prop} (kept : Kept m holds)
    (requests : List WriteRequest) : Keeps holds (writes m requests) := by
  induction requests with
  | nil => exact keeps_pure _
  | cons request rest ih =>
      rw [LiveNodes.writes]
      refine Keeps.bind (kept.write_sector _ _ _) ?_
      intro _
      exact ih

/-- An image that was opened and not used yet. -/
structure Opened (s : Image) : Prop where
  l2 : s.l2 = empty
  rf : s.rf = empty
  turns : s.turns = []

/-- In every state that writes lead to, all linked nodes are live, when none of the
writes has taken a harmful turn. -/
theorem linked_nodes_live (m : Machine) (requests : List WriteRequest) (start : Image)
    (opened : Opened start) (harmless : ¬ Turned Harmful (writes m requests start).2) :
    NodesLive (writes m requests start).2 := by
  have sound : SoundCaches start := by
    constructor
    · rw [opened.l2]
      exact sound_empty
    · rw [opened.rf]
      exact sound_empty
  have guarded := Kept.writes (kept_guarded m) requests start (.inr sound)
  have caches := guarded.resolve_left harmless
  exact ⟨Sound.all_live caches.tables, Sound.all_live caches.blocks⟩

/-- An image of 32 KiB with a level 2 table without entries and no refcount block. The
host refuses one of its calls. -/
def blockless (refused : Nat) : Image where
  header := ⟨32768, 4096, 1, 9, 6, 4608, 1⟩
  tableSize := 1
  l1Table := fun _ => 0x8000000000001400
  l2 := empty
  rfSize := 1
  rfTable := fun _ => 0
  rf := empty
  freeClustIdx := 0
  copyBuff := fun _ => 0
  disk :=
    { file := ⟨fun _ => 0, 8192, false⟩
      calls := 0
      host := fun call => if call = refused then .fails else .moves 512 }
  turns := []
  changedTables := fun _ => none
  changedBlocks := fun _ => none

def firstSector : WriteRequest := ⟨fun _ => 7, 0, [⟨0, 512⟩]⟩

theorem grown_block_live : NodesLive (writes ⟨8, fun _ => 0⟩ [firstSector] (blockless 2)).2 := by
  apply linked_nodes_live _ _ _ ⟨rfl, rfl, rfl⟩
  have none : (writes ⟨8, fun _ => 0⟩ [firstSector] (blockless 2)).2.turns = [] := by
    decide +kernel
  rintro ⟨turn, taken, _⟩
  rw [none] at taken
  cases taken

/-- The count of the grown block is not written. -/
theorem grown_block_dangles : 0 ∈ (writes ⟨8, fun _ => 0⟩ [firstSector] (blockless 3)).2.rf.lru ∧
    ((writes ⟨8, fun _ => 0⟩ [firstSector] (blockless 3)).2.rf.cells 0).isNone ∧
    ¬ NodesLive (writes ⟨8, fun _ => 0⟩ [firstSector] (blockless 3)).2 := by
  have linked : 0 ∈ (writes ⟨8, fun _ => 0⟩ [firstSector] (blockless 3)).2.rf.lru := by
    decide +kernel
  have freed : ((writes ⟨8, fun _ => 0⟩ [firstSector] (blockless 3)).2.rf.cells 0).isNone := by
    decide +kernel
  refine ⟨linked, freed, ?_⟩
  rintro ⟨_, live⟩
  have there := live.allocated 0 (.inr linked)
  rw [Option.isNone_iff_eq_none] at freed
  rw [freed] at there
  cases there

end VirtioDisk.LiveNodes
