import VirtioDisk.BlockContents
import VirtioDisk.LiveNodes

/-!
`qcow_disk_flush` after any sequence of writes. A flush that returns 0 has written
every refcount block that is cached and dirty. It does not write the level 1 table,
and it cannot write a dirty block that has made room for another one: the file holds
what is in memory as long as no write loses a block or goes over a block or the table.
-/

namespace VirtioDisk.FlushDurability

open BlockContents LiveNodes NodeCache NodeInvariants QcowNodes
open ByteStore (Range readRange)
open QcowImage (ImageFile L2Table RefcountBlock maxCacheNodes preadInFull)
open QcowReference (cell pread_in_full_same storedTable)
open QcowWrite (Machine pwriteInFull tableBytes)
open ReadWrite (File fileMax)
open RefcountConsistency (Clean WroteInside pwrite_inside stored_table_outside sync_inside)

/-! The flush. -/

def flushBlocks : List Nat → Op Bool
  | [] => pure true
  | p :: rest => do
      let c ← blockAt p
      let written ← writeRefcountBlock (.block c.offset) p
      if written then flushBlocks rest else pure false

def flushTables : List Nat → Op Bool
  | [] => pure true
  | p :: rest => do
      let written ← qcowL2CacheWrite p
      if written then flushTables rest else pure false

def fsync : Op Bool := fun s =>
  let (synced, disk) := QcowWrite.fdatasync s.disk
  (.ok synced, { s with disk := disk })

/-- What follows once the blocks are written. -/
def flushRest : Op Int := do
  let tables ← read fun s => s.l2.lru
  let stored ← flushTables tables
  if stored then
    -- The source compares `qcow_write_l1_table` itself with 0, and does not call it.
    let synced ← fsync
    pure (if synced then 0 else -1)
  else pure (-1)

def qcowDiskFlush : Op Int := do
  let blocks ← read fun s => s.rf.lru
  let stored ← flushBlocks blocks
  if stored then flushRest else pure (-1)

/-- The file holds the level 1 table, and every table and block that was changed after it
was loaded. -/
structure Durable (s : Image) : Prop where
  l1Table : ∀ i < s.tableSize,
    storedTable s.disk.file s.tableSize s.header.l1TableOffset.toNat i = s.l1Table i
  tables : ∀ offset table, s.changedTables offset = some table →
    ∀ i < s.l2tSize, storedTable s.disk.file s.l2tSize offset.toNat i = table i
  blocks : ∀ offset content, s.changedBlocks offset = some content →
    Stores (s.clusterSize / 2) s.disk.file offset content

/-- The turns after which a flush cannot store what is in memory. -/
def Lossy : Turn → Prop
  | .growthUndone | .offsetCached | .headerTaken | .blockLost | .overBlock | .overL1Table => True
  | _ => False

/-! The invariant. -/

/-- The file has the level 1 table, no table was changed, and every block has the entries
that were put into it. -/
structure Settled (s : Image) : Prop where
  ordered : Ordered s
  l1Table : ∀ i < s.tableSize,
    storedTable s.disk.file s.tableSize s.header.l1TableOffset.toNat i = s.l1Table i
  tables : ∀ offset, s.changedTables offset = none
  blocks : ∀ offset content, s.changedBlocks offset = some content →
    Named s offset ∧ Contains s offset content

def Safe (s : Image) : Prop := Turned Lossy s ∨ Settled s

theorem safe {Result : Type} {op : Op Result} (turned : Keeps (Turned Lossy) op)
    (settles : Takes Settled Safe op) : Keeps Safe op := by
  rintro s (taken | settled)
  · exact .inl (turned s taken)
  · exact settles s settled

section Steps
variable {m : Machine} {s : Image}

/-- What the invariant does not depend on. -/
theorem Settled.aside (settled : Settled s) (l2 : Cache L2Table) (free : UInt64)
    (copyBuff : Nat → UInt8) (turns : List Turn) : Settled { s with
      l2 := l2
      freeClustIdx := free
      copyBuff := copyBuff
      turns := turns } :=
  ⟨settled.ordered, settled.l1Table, settled.tables, settled.blocks⟩

theorem same_table_stored {file : File} (same : SameTable s file) :
    storedTable file s.tableSize s.header.l1TableOffset.toNat =
      storedTable s.disk.file s.tableSize s.header.l1TableOffset.toNat :=
  stored_table_outside fun position holds => same position holds.1 holds.2

/-- A write that spares the blocks and the table. -/
theorem Settled.wrote (settled : Settled s) {rf : Cache RefcountBlock} {disk : ImageFile}
    (ordered : Ordered { s with rf := rf, disk := disk }) (table : SameTable s disk.file)
    (blocks : ∀ offset content, Named s offset → Contains s offset content →
      Contains { s with rf := rf, disk := disk } offset content) :
    Settled { s with rf := rf, disk := disk } := by
  refine ⟨ordered, ?_, settled.tables, ?_⟩
  · intro i early
    change storedTable disk.file _ _ i = _
    rw [same_table_stored table]
    exact settled.l1Table i early
  · intro offset content changed
    obtain ⟨named, has⟩ := settled.blocks offset content changed
    exact ⟨named, blocks offset content named has⟩

theorem Settled.read (settled : Settled s) {disk : ImageFile} (file : disk.file = s.disk.file) :
    Settled { s with disk := disk } := by
  apply settled.wrote
  · refine Blocks.rewritten settled.ordered ?_
    rw [file]
    exact settled.ordered.clean
  · intro position _ _
    rw [file]
  · intro offset content _ has
    apply has.rewritten
    rw [file]
    exact fun _ _ => rfl

/-- What is written of the data, or of a table that no owner protects. -/
theorem Settled.data (settled : Settled s) {disk : ImageFile} {offset : UInt64} {length : Nat}
    (wrote : WroteInside s.disk disk offset.toNat length) : Safe { s with
      turns := writeTurns s .data length offset ++ s.turns
      disk := disk } := by
  by_cases block : .overBlock ∈ writeTurns s .data length offset
  · exact .inl ⟨_, List.mem_append_left _ block, trivial⟩
  by_cases table : .overL1Table ∈ writeTurns s .data length offset
  · exact .inl ⟨_, List.mem_append_left _ table, trivial⟩
  right
  have spared := spared_table .data nofun table wrote
  have across : ¬ OverBlock s .data offset.toNat length := fun across => block (over_block_noted across)
  have after : Settled { s with rf := s.rf, disk := disk } := by
    refine settled.wrote (Blocks.rewritten settled.ordered wrote.clean) spared ?_
    intro other content named has
    exact has.rewritten (spared_block .data across wrote named rfl)
  exact after.aside _ _ _ _

theorem safe_note (turn : Turn) (happens : Image → Bool) : Keeps Safe (noteIf happens turn) := by
  apply safe (turned_note turn happens)
  intro s settled
  rw [note_if_ran]
  exact .inr (settled.aside _ _ _ _)

theorem safe_write (bytes : List UInt8) (offset : UInt64) : Keeps Safe (pwrite bytes offset) := by
  apply safe (turned_write bytes offset)
  intro s settled
  rw [write_ran]
  exact settled.data (pwrite_inside settled.ordered.clean bytes offset)

theorem safe_sync (bytes : List UInt8) (offset : UInt64) :
    Keeps Safe (qcowPwriteSync .data bytes offset) := by
  apply safe (turned_sync .data bytes offset)
  intro s settled
  rw [sync_ran]
  exact settled.data (sync_inside settled.ordered.clean bytes offset)

theorem safe_read (count : Nat) (offset : UInt64) : Keeps Safe (pread count offset) := by
  apply safe (keeps_same fun _ => rfl)
  intro s settled
  exact .inr (settled.read (pread_in_full_same s.disk count offset).1)

/-- A step in the cache of the tables, or beside both caches. -/
theorem safe_aside {Result : Type} {op : Op Result}
    (ran : ∀ s, ∃ outcome l2 free copyBuff, op s = (outcome, { s with
      l2 := l2
      freeClustIdx := free
      copyBuff := copyBuff })) : Keeps Safe op := by
  intro s held
  obtain ⟨outcome, l2, free, copyBuff, same⟩ := ran s
  rw [same]
  rcases held with ⟨turn, taken, lossy⟩ | settled
  · exact .inl ⟨turn, taken, lossy⟩
  · exact .inr (settled.aside l2 free copyBuff s.turns)

theorem safe_search_block (offset : UInt64) : Keeps Safe (refcountBlockSearch offset) := by
  apply safe (turned_search_block offset)
  intro s settled
  obtain ⟨after, found, blocks, _, _, held⟩ := Blocks.search settled.ordered offset
  rw [refcountBlockSearch, found]
  have still : Ordered { s with rf := after, disk := s.disk } := blocks
  have same : SameTable s s.disk.file := fun _ _ _ => rfl
  exact .inr (settled.wrote still same
    fun other content _ has => (has_congr (held other.toNat)).mpr has)

theorem safe_load_block (offset : UInt64) :
    Takes (fun s => Safe s ∧ Named s offset ∧ find blockKey offset.toNat s.rf = none) Safe
      (loadRefcountBlock m offset) := by
  rintro s ⟨taken | settled, named, missing⟩
  · exact .inl (turned_load_block offset s taken)
  · rcases load_block_ran m settled.ordered named missing with
      ⟨disk, file, ran⟩ | ⟨turns, rf, disk, ran, loaded⟩
    · rw [ran]
      exact .inr (settled.read file)
    · rw [ran]
      by_cases lost : .blockLost ∈ turns
      · exact .inl ⟨_, List.mem_append_left _ lost, trivial⟩
      right
      refine ⟨loaded.ordered, ?_, settled.tables, ?_⟩
      · intro i early
        change storedTable disk.file _ _ i = _
        rw [loaded.file]
        exact settled.l1Table i early
      · intro other content changed
        change (if other = offset then none else s.changedBlocks other) = some content at changed
        split at changed
        · cases changed
        · next different =>
          obtain ⟨named, has⟩ := settled.blocks other content changed
          exact ⟨named, loaded.others (mt loaded.lost lost) other content different has⟩

theorem safe_grow (rftIdx : Nat) (offset : UInt64) :
    Takes (fun s => Safe s ∧ Absent s rftIdx) Safe (linkGrown rftIdx offset) := by
  rintro s ⟨taken | settled, absent⟩
  · exact .inl (turned_grow rftIdx offset s taken)
  by_cases fresh : .offsetCached ∈ (linkGrown rftIdx offset s).2.turns
  · exact .inl ⟨_, fresh, trivial⟩
  by_cases header : offset = 0
  · exact .inl (turned_header rftIdx offset s (.inr ⟨header, trivial⟩))
  rcases grow_ran settled.ordered absent header (.inr fresh) with
    ⟨turns, rf, disk, ran, ungrown⟩ | ⟨turns, rf, disk, ran, grown⟩
  · rw [ran]
    by_cases block : .overBlock ∈ turns
    · exact .inl ⟨_, List.mem_append_left _ block, trivial⟩
    by_cases table : .overL1Table ∈ turns
    · exact .inl ⟨_, List.mem_append_left _ table, trivial⟩
    have after := settled.wrote ungrown.ordered (ungrown.table table) (ungrown.others block)
    exact .inr (after.aside _ _ _ _)
  · rw [ran]
    by_cases block : .overBlock ∈ turns
    · exact .inl ⟨_, List.mem_append_left _ block, trivial⟩
    by_cases table : .overL1Table ∈ turns
    · exact .inl ⟨_, List.mem_append_left _ table, trivial⟩
    by_cases lost : .blockLost ∈ turns
    · exact .inl ⟨_, List.mem_append_left _ lost, trivial⟩
    right
    refine ⟨grown.ordered, ?_, settled.tables, ?_⟩
    · intro i early
      change storedTable disk.file _ _ i = _
      rw [same_table_stored (grown.table table)]
      exact settled.l1Table i early
    · intro other content changed
      change (if other = offset then some fun _ => 0 else s.changedBlocks other) = some content
        at changed
      split at changed
      · next same =>
        cases changed
        rw [same]
        exact ⟨⟨rftIdx, absent.1, if_pos rfl, header⟩, grown.own⟩
      · next different =>
        obtain ⟨named, has⟩ := settled.blocks other content changed
        have kept := grown.others (mt grown.across block) (mt grown.lost lost)
        exact ⟨Named.grown absent named offset, kept other content different named has⟩

theorem safe_update_block (p : Nat) (clustIdx : UInt64) (append : UInt16) :
    Keeps Safe (updateBlock p clustIdx append) := by
  apply safe (turned_update_block p clustIdx append)
  intro s settled
  cases there : s.rf.cells p with
  | none =>
      rw [updateBlock, bind_error (block_dead there)]
      exact .inr settled
  | some rfb =>
      by_cases inside : rfbIndex s clustIdx < rfb.size
      · obtain ⟨written, turns, rf, disk, free, ran, updated, _⟩ :=
          update_block_ran settled.ordered there clustIdx append inside
        rw [ran]
        by_cases block : .overBlock ∈ turns
        · exact .inl ⟨_, List.mem_append_left _ block, trivial⟩
        by_cases table : .overL1Table ∈ turns
        · exact .inl ⟨_, List.mem_append_left _ table, trivial⟩
        right
        refine ⟨updated.ordered, ?_, settled.tables, ?_⟩
        · intro i early
          change storedTable disk.file _ _ i = _
          rw [same_table_stored (updated.table table)]
          exact settled.l1Table i early
        · intro other content changed
          change (if other = rfb.offset then some (counted s rfb clustIdx append)
            else s.changedBlocks other) = some content at changed
          split at changed
          · next same =>
            cases changed
            rw [same]
            exact ⟨settled.ordered.named p rfb there, updated.own (mt updated.across block)⟩
          · next different =>
            obtain ⟨named, has⟩ := settled.blocks other content changed
            have spared := mt updated.across block
            exact ⟨named, updated.others spared other content different named has⟩
      · have index : QcowNodes.read (rfbIndex · clustIdx) s = (.ok (rfbIndex s clustIdx), s) := rfl
        rw [updateBlock, bind_ok (block_alive there), bind_ok index,
          if_pos (Nat.not_lt.mp inside)]
        exact .inr settled

theorem safe_next_index : Keeps Safe nextClustIdx := by
  unfold nextClustIdx
  refine Keeps.bind (keeps_read _) ?_
  intro index
  refine Keeps.bind (safe_note _ _) ?_
  intro _
  refine Keeps.bind (safe_aside fun s => ⟨_, _, _, _, rfl⟩) ?_
  intro _
  exact keeps_pure _

theorem safe_copy_buff (base : Nat) (bytes : List UInt8) : Keeps Safe (setCopyBuff base bytes) :=
  safe_aside fun _ => ⟨_, _, _, _, rfl⟩

theorem safe_undo (rfb rftIdx : Nat) : Keeps Safe (undoGrowth rfb rftIdx) := by
  intro s _
  left
  have noted : note .growthUndone s = (.ok (), noted .growthUndone s) := rfl
  rw [undoGrowth, bind_ok noted]
  refine Keeps.bind (keeps_same fun _ => rfl) ?_ _ ⟨.growthUndone, List.mem_cons_self, trivial⟩
  intro _
  exact Keeps.bind (turned_free_block rfb) fun _ => keeps_pure _

theorem safe_write_table : Keeps Safe qcowWriteRefcountTable := by
  unfold qcowWriteRefcountTable
  refine Keeps.bind (keeps_read _) ?_
  intro bytes
  refine Keeps.bind (keeps_read _) ?_
  intro offset
  exact safe_sync _ _

/-! Level 2 tables. -/

theorem safe_search_table (offset : UInt64) : Keeps Safe (l2TableSearch offset) := by
  apply safe_aside
  intro s
  rw [l2TableSearch]
  split <;> exact ⟨_, _, _, _, rfl⟩

theorem safe_link_table (p : Nat) : Keeps Safe (linkTable p) := by
  apply safe_aside
  intro s
  rw [linkTable]
  split <;> exact ⟨_, _, _, _, rfl⟩

theorem safe_cache_table (p : Nat) : Keeps Safe (cacheTable p) := by
  unfold cacheTable
  refine Keeps.bind (keeps_table_at p) ?_
  intro c
  refine Keeps.bind (safe_note _ _) ?_
  intro _
  refine Keeps.bind (safe_note _ _) ?_
  intro _
  exact safe_link_table p

theorem safe_forget (offset : UInt64) : Keeps Safe (change fun s => { s with
    changedTables := fun other => if other = offset then none else s.changedTables other }) := by
  apply safe (keeps_same fun _ => rfl)
  intro s settled
  refine .inr ⟨settled.ordered, settled.l1Table, ?_, settled.blocks⟩
  intro other
  change (if other = offset then none else s.changedTables other) = none
  split
  · rfl
  · exact settled.tables other

theorem safe_load_table (offset : UInt64) : Keeps Safe (loadTable offset) := by
  unfold loadTable
  refine Keeps.bind (keeps_read _) ?_
  intro size
  refine Keeps.bind (safe_read _ _) ?_
  intro bytes
  cases bytes with
  | none => exact keeps_pure _
  | some bytes =>
      refine Keeps.bind (safe_aside fun _ => ⟨_, _, _, _, rfl⟩) ?_
      intro l2t
      refine Keeps.bind (safe_forget offset) ?_
      intro _
      refine Keeps.bind (safe_cache_table l2t) ?_
      intro _
      exact keeps_pure _

theorem safe_cache_write (p : Nat) : Keeps Safe (qcowL2CacheWrite p) := by
  unfold qcowL2CacheWrite
  refine Keeps.bind (keeps_table_at p) ?_
  intro c
  split
  · refine Keeps.bind (keeps_read _) ?_
    intro size
    refine Keeps.bind (safe_sync _ _) ?_
    intro written
    split
    · refine Keeps.bind (safe_aside fun _ => ⟨_, _, _, _, rfl⟩) ?_
      intro _
      exact keeps_pure _
    · exact keeps_pure _
  · exact keeps_pure _

theorem safe_dirty_table (p : Nat) : Keeps Safe (dirtyTable p) := by
  unfold dirtyTable
  refine Keeps.bind (keeps_table_at p) ?_
  intro c
  exact safe_aside fun _ => ⟨_, _, _, _, rfl⟩

theorem safe_free_table (p : Nat) : Keeps Safe (freeTable p) := by
  unfold freeTable
  refine Keeps.bind (keeps_table_at p) ?_
  intro c
  exact safe_aside fun _ => ⟨_, _, _, _, rfl⟩

theorem safe_read_table (offset : UInt64) : Keeps Safe (qcowReadL2Table offset) := by
  unfold qcowReadL2Table
  refine Keeps.bind (safe_search_table offset) ?_
  intro found
  cases found with
  | none => exact safe_load_table offset
  | some l2t => exact keeps_pure _

/-- Nothing can be written at the offset that stands for an error. -/
theorem write_refused {bytes : List UInt8} (disk : ImageFile) (some : bytes ≠ []) :
    pwriteInFull disk bytes (-1) = (false, disk) := by
  rw [pwriteInFull, if_pos (by decide), decide_eq_false some]

/-- The copy of a cluster is not stored, and no table changes. -/
theorem safe_store_copy (frees : ∀ start size, Keeps Safe (qcowFreeClusters m start size))
    (table l2tIdx : Nat) (start flags : UInt64) (clustOff : Nat) (src : List UInt8) :
    Keeps Safe (storeCopy m table l2tIdx (-1) start flags clustOff src) := by
  unfold storeCopy
  refine Keeps.bind (safe_copy_buff _ _) ?_
  intro _ s held
  have cluster : QcowNodes.read (fun s => readRange s.copyBuff 0 s.clusterSize) s =
    (.ok (readRange s.copyBuff 0 s.clusterSize), s) := rfl
  have some : readRange s.copyBuff 0 s.clusterSize ≠ [] := by
    intro none
    have length := congrArg List.length none
    rw [ByteStore.length_readRange] at length
    exact absurd length (Nat.ne_of_gt (Nat.two_pow_pos _))
  have after := safe_write (readRange s.copyBuff 0 s.clusterSize) (-1) s held
  rw [bind_ok cluster]
  rw [write_ran, write_refused s.disk some] at after
  rw [bind_ok (write_ran ..), write_refused s.disk some]
  exact keeps_free_new frees (-1) _ after

/-- A table that is searched for under its own offset is found. -/
def Cached (p : Nat) (s : Image) : Prop :=
  ∃ c, s.l2.cells p = some c ∧ (find tableKey (tableKey c) s.l2).isSome

theorem search_table_cached {p : Nat} {offset : UInt64} {after : Image}
    (ran : l2TableSearch offset s = (.ok (some p), after)) : Cached p after := by
  rw [l2TableSearch, search] at ran
  by_cases dangles : Dangles s.l2
  · rw [if_pos dangles] at ran
    cases ran
  · rw [if_neg dangles] at ran
    cases found : find tableKey offset.toNat s.l2 with
    | none =>
        rw [found] at ran
        cases ran
    | some q =>
        rw [found] at ran
        cases ran
        obtain ⟨_, c, there, named⟩ := find_spec found
        refine ⟨c, there, ?_⟩
        rw [named]
        exact Option.isSome_iff_exists.mpr ⟨p, found⟩

theorem cache_table_cached {p : Nat} {after : Image} (ran : cacheTable p s = (.ok (), after)) :
    Cached p after := by
  cases there : s.l2.cells p with
  | none =>
      rw [cacheTable, bind_error (table_dead there)] at ran
      cases ran
  | some c =>
      rw [cacheTable, bind_ok (table_alive there), bind_ok (note_if_ran ..),
        bind_ok (note_if_ran ..), linkTable] at ran
      cases linked : link tableKey maxCacheNodes p s.l2 with
      | none =>
          rw [linked] at ran
          cases ran
      | some l2 =>
          rw [linked] at ran
          cases ran
          exact link_found linked

theorem load_table_cached {p : Nat} {offset : UInt64} {after : Image}
    (ran : loadTable offset s = (.ok (some p), after)) : Cached p after := by
  have size : QcowNodes.read Image.l2tSize s = (.ok s.l2tSize, s) := rfl
  have read : pread (8 * s.l2tSize) offset s =
    (.ok (preadInFull s.disk (8 * s.l2tSize) offset).1,
      { s with disk := (preadInFull s.disk (8 * s.l2tSize) offset).2 }) := rfl
  rw [loadTable, bind_ok size, bind_ok read] at ran
  cases bytes : (preadInFull s.disk (8 * s.l2tSize) offset).1 with
  | none =>
      rw [bytes] at ran
      cases ran
  | some bytes_ =>
      rw [bytes] at ran
      let filled : Image := { s with
        disk := (preadInFull s.disk (8 * s.l2tSize) offset).2
        l2 := malloc ⟨offset, false, QcowRead.be64 bytes_⟩ s.l2
        changedTables := fun other => if other = offset then none else s.changedTables other }
      change (cacheTable s.l2.next >>= fun _ => pure (some s.l2.next) : Op (Option Nat)) filled =
        _ at ran
      cases linked : cacheTable s.l2.next filled with
      | mk outcome middle =>
          cases outcome with
          | error fault =>
              rw [bind_error linked] at ran
              cases ran
          | ok _ =>
              rw [bind_ok linked] at ran
              cases ran
              exact cache_table_cached linked

theorem read_table_cached {p : Nat} {offset : UInt64} {after : Image}
    (ran : qcowReadL2Table offset s = (.ok (some p), after)) : Cached p after := by
  rw [qcowReadL2Table] at ran
  cases searched : l2TableSearch offset s with
  | mk outcome middle =>
      cases outcome with
      | error fault =>
          rw [bind_error searched] at ran
          cases ran
      | ok found =>
          rw [bind_ok searched] at ran
          cases found with
          | none => exact load_table_cached ran
          | some l2t =>
              cases ran
              exact search_table_cached searched

theorem copied_table_cached {p : Nat} {old new size : UInt64} {after : Image} (more : old ≠ 0)
    (ran : copiedTable m old new size s = (.ok (some p), after)) : Cached p after := by
  have made : newCacheTable ⟨new, false, fun _ => 0⟩ s =
    (.ok s.l2.next, { s with l2 := malloc ⟨new, false, fun _ => 0⟩ s.l2 }) := rfl
  rw [copiedTable, bind_ok made, if_neg more] at ran
  generalize { s with l2 := malloc _ s.l2 } = start at ran
  cases read : qcowReadL2Table old start with
  | mk outcome middle =>
      cases outcome with
      | error fault =>
          rw [bind_error read] at ran
          cases ran
      | ok found =>
          rw [bind_ok read] at ran
          cases found with
          | some l2t =>
              cases ran
              exact read_table_cached read
          | none =>
              -- Without a table there is no result.
              dsimp only at ran
              cases freed : qcowFreeClusters m new size middle with
              | mk outcome last =>
                  cases outcome with
                  | error fault =>
                      rw [bind_error freed] at ran
                      cases ran
                  | ok _ =>
                      rw [bind_ok freed] at ran
                      cases ran

theorem cached_store {p : Nat} {c : L2Table} (cached : Cached p s)
    (there : s.l2.cells p = some c) (new : L2Table) (same : new.offset = c.offset) :
    Cached p { s with l2 := store p new s.l2 } := by
  obtain ⟨other, alive, found⟩ := cached
  rw [there] at alive
  cases alive
  have key : tableKey new = tableKey c := congrArg UInt64.toNat same
  refine ⟨new, if_pos rfl, ?_⟩
  rw [find_store there key, key]
  exact found

theorem cached_dirty (p : Nat) : Keeps (Cached p) (dirtyTable p) := by
  rintro s ⟨c, there, found⟩
  rw [dirtyTable, bind_ok (table_alive there)]
  exact cached_store ⟨c, there, found⟩ there { c with dirty := true } rfl

theorem cached_write (p : Nat) : Keeps (Cached p) (qcowL2CacheWrite p) := by
  rintro s ⟨c, there, found⟩
  obtain ⟨written, after, ran, _, same | stored⟩ := cache_write_ran there
  · rw [ran, Cached, same]
    exact ⟨c, there, found⟩
  · have moved := cached_store ⟨c, there, found⟩ there { c with dirty := false } rfl
    rw [ran, Cached, stored]
    exact moved

/-- A table that is found is not linked again without notice. -/
theorem cache_again (p : Nat) : Takes (Cached p) (Turned Lossy) (cacheTable p) := by
  rintro s ⟨c, there, found⟩
  rw [cacheTable, bind_ok (table_alive there), bind_ok (note_if_true .offsetCached found)]
  refine Keeps.bind (turned_note _ _) ?_ _ ⟨.offsetCached, List.mem_cons_self, trivial⟩
  intro _
  exact turned_link_table p

theorem safe_free_cache (frees : ∀ start size, Keeps Safe (qcowFreeClusters m start size))
    (l2t : Nat) (linked : Bool) (new size : UInt64) :
    Keeps Safe (freeCache m l2t linked new size) := by
  unfold freeCache
  refine Keeps.bind (safe_note _ _) ?_
  intro _
  refine Keeps.bind (safe_free_table l2t) ?_
  intro _
  refine Keeps.bind (frees _ _) ?_
  intro _
  exact keeps_pure _

theorem safe_copied_table (frees : ∀ start size, Keeps Safe (qcowFreeClusters m start size))
    (old new size : UInt64) : Keeps Safe (copiedTable m old new size) := by
  unfold copiedTable
  refine Keeps.bind (safe_aside fun _ => ⟨_, _, _, _, rfl⟩) ?_
  intro node
  split
  · exact keeps_pure _
  · refine Keeps.bind (safe_read_table old) ?_
    intro found
    cases found with
    | none =>
        refine Keeps.bind (frees _ _) ?_
        intro _
        exact keeps_pure _
    | some l2t => exact keeps_pure _

theorem table_nonempty (table : Nat → UInt64) {size : Nat} (positive : 0 < size) :
    tableBytes table size ≠ [] := by
  obtain ⟨less, rfl⟩ : ∃ less, size = less + 1 := ⟨size - 1, by omega⟩
  rw [tableBytes, List.range_succ_eq_map, List.flatMap_cons]
  intro none
  have first := (List.append_eq_nil_iff.mp none).1
  cases first

/-- A new table is not written at the offset that stands for an error. -/
theorem safe_first_table (frees : ∀ start size, Keeps Safe (qcowFreeClusters m start size))
    (l1tIdx : Nat) : Keeps Safe (moveTable m l1tIdx 0 (-1)) := by
  intro s held
  generalize made : L2Table.mk (-1) false (fun _ => 0) = node
  generalize dirty_ : L2Table.mk (-1) true (fun _ => 0) = dirty
  have size : QcowNodes.read (fun s => UInt64.ofNat s.clusterSize) s =
    (.ok (UInt64.ofNat s.clusterSize), s) := rfl
  have new : newCacheTable node s = (.ok s.l2.next, { s with l2 := malloc node s.l2 }) := rfl
  have copied : copiedTable m 0 (-1) (UInt64.ofNat s.clusterSize) s =
      (.ok (some s.l2.next), { s with l2 := malloc node s.l2 }) := by
    rw [copiedTable, made, bind_ok new, if_pos rfl]
    rfl
  let marked : Image := { s with l2 := store s.l2.next dirty (malloc node s.l2) }
  have dirtied : dirtyTable s.l2.next { s with l2 := malloc node s.l2 } = (.ok (), marked) := by
    rw [dirtyTable, bind_ok (table_alive (malloc_cells node s.l2))]
    subst made dirty_
    rfl
  have alive : marked.l2.cells s.l2.next = some dirty := if_pos rfl
  have refused : ∃ after, qcowL2CacheWrite s.l2.next marked = (.ok false, after) := by
    have some : tableBytes dirty.table marked.l2tSize ≠ [] := table_nonempty _ (Nat.two_pow_pos _)
    have size : QcowNodes.read Image.l2tSize marked = (.ok marked.l2tSize, marked) := rfl
    have offset : dirty.offset = -1 := by rw [← dirty_]
    have flagged : dirty.dirty = true := by rw [← dirty_]
    rw [qcowL2CacheWrite, bind_ok (table_alive alive), if_pos flagged, bind_ok size,
      bind_ok (sync_ran ..), offset, QcowWrite.qcowPwriteSync, write_refused _ some]
    exact ⟨_, rfl⟩
  obtain ⟨after, ran⟩ := refused
  have first : Keeps Safe (newCacheTable node) := safe_aside fun _ => ⟨_, _, _, _, rfl⟩
  have second := safe_dirty_table s.l2.next _ (first s held)
  rw [new, dirtied] at second
  have third := safe_cache_write s.l2.next _ second
  rw [ran] at third
  rw [moveTable, bind_ok size, bind_ok copied]
  dsimp only
  rw [bind_ok dirtied, bind_ok ran, if_neg Bool.false_ne_true]
  exact safe_free_cache frees _ _ _ _ after third

/-- A table that was there before is linked already, and the first of the steps behind the
write of it is noted. -/
theorem safe_next_table (frees : ∀ start size, Keeps Safe (qcowFreeClusters m start size))
    (l1tIdx : Nat) {old : UInt64} (more : old ≠ 0) : Keeps Safe (moveTable m l1tIdx old (-1)) := by
  intro s held
  have size : QcowNodes.read (fun s => UInt64.ofNat s.clusterSize) s =
    (.ok (UInt64.ofNat s.clusterSize), s) := rfl
  have reached := safe_copied_table frees old (-1) (UInt64.ofNat s.clusterSize) s held
  rw [moveTable, bind_ok size]
  cases copied : copiedTable m old (-1) (UInt64.ofNat s.clusterSize) s with
  | mk outcome after =>
      rw [copied] at reached
      cases outcome with
      | error fault =>
          rw [bind_error copied]
          exact reached
      | ok found =>
          rw [bind_ok copied]
          cases found with
          | none => exact reached
          | some l2t =>
              have cached := copied_table_cached more copied
              have both (op : Nat → Op Bool) := op
              refine Takes.bind ((safe_dirty_table l2t).and (cached_dirty l2t))
                (fun _ both => both.1) ?_ after ⟨reached, cached⟩
              intro _
              refine Takes.bind ((safe_cache_write l2t).and (cached_write l2t))
                (fun _ both => both.1) ?_
              intro written
              split
              · intro s both
                have turned := (kept_turned m Lossy).free_clusters
                refine .inl (Takes.bind (cache_again l2t) (fun _ taken => taken) ?_ s both.2)
                intro _
                refine Keeps.bind (turned_note_table l2t) ?_
                intro _
                refine Keeps.bind (keeps_same fun _ => rfl) ?_
                intro _
                refine Keeps.bind ?_ ?_
                · unfold qcowWriteL1Table
                  refine Keeps.bind (keeps_read _) ?_
                  intro bytes
                  refine Keeps.bind (keeps_read _) ?_
                  intro offset
                  exact turned_sync _ _ _
                · intro stored
                  split
                  · exact Keeps.bind (turned _ _) fun _ => keeps_pure _
                  · exact turned_free_cache turned _ _ _ _
              · exact fun s both => safe_free_cache frees _ _ _ _ s both.1

theorem safe_move_table (frees : ∀ start size, Keeps Safe (qcowFreeClusters m start size))
    (l1tIdx : Nat) (old : UInt64) : Keeps Safe (moveTable m l1tIdx old (-1)) := by
  by_cases first : old = 0
  · rw [first]
    exact safe_first_table frees l1tIdx
  · exact safe_next_table frees l1tIdx first

theorem kept_safe (m : Machine) : Kept m Safe where
  searchBlock := safe_search_block
  loadBlock := safe_load_block
  nextIndex := safe_next_index
  searchTable := safe_search_table
  loadTable := safe_load_table
  read := safe_read
  write := safe_write
  grow := safe_grow
  undo := safe_undo
  writeTable := safe_write_table
  noteGone := safe_note _
  updateBlock := safe_update_block
  copyBuff := safe_copy_buff
  cacheWrite := safe_cache_write
  storeCopy := safe_store_copy
  moveTable := safe_move_table

end Steps

/-! The end of a flush. -/

/-- The node is not dirty. -/
def Tidy (p : Nat) (rf : Cache RefcountBlock) : Prop :=
  ∀ rfb, rf.cells p = some rfb → rfb.dirty = false

/-- Every block has the entries that it had, and none gets dirty. -/
structure Flushed (s : Image) (turns : List Turn) (rf : Cache RefcountBlock) (disk : ImageFile) :
    Prop where
  ordered : Ordered { s with rf := rf, disk := disk }
  lru : rf.lru = s.rf.lru
  tidy : ∀ q, Tidy q s.rf → Tidy q rf
  blocks : .overBlock ∉ turns → ∀ other content, Named s other → Contains s other content →
    Contains { s with rf := rf, disk := disk } other content
  table : .overL1Table ∉ turns → SameTable s disk.file

theorem flush_blocks_ran {s : Image} (ordered : Ordered s) (nodes : List Nat)
    (linked : ∀ p ∈ nodes, p ∈ s.rf.lru) :
    ∃ stored turns rf disk,
      flushBlocks nodes s =
        (.ok stored, { s with turns := turns ++ s.turns, rf := rf, disk := disk }) ∧
      Flushed s turns rf disk ∧ (stored = true → ∀ p ∈ nodes, Tidy p rf) := by
  induction nodes generalizing s with
  | nil =>
      exact ⟨true, [], s.rf, s.disk, rfl, ⟨ordered, rfl, fun _ tidy => tidy, fun _ _ _ _ has => has,
        fun _ _ _ _ => rfl⟩, fun _ => nofun⟩
  | cons p rest ih =>
      obtain ⟨rfb, there⟩ := ordered.sound.live p (linked p List.mem_cons_self)
      obtain ⟨written, turns, rf, disk, ran, rewrote⟩ := own_write ordered there
      obtain ⟨node, here, _, clean⟩ := rewrote.node
      have tidied (done : written = true ∨ rfb.dirty = false) : Tidy p rf := by
        intro found alive
        rw [here] at alive
        cases alive
        exact clean done
      have tidy (q : Nat) (before : Tidy q s.rf) : Tidy q rf := by
        by_cases own : q = p
        · rw [own]
          exact tidied (.inr (before rfb (own ▸ there)))
        · intro found alive
          rw [rewrote.cells q own] at alive
          exact before found alive
      have kept (clear : .overBlock ∉ turns) :=
        rewrote.blocks fun dirty => mt (rewrote.across dirty) clear
      rw [flushBlocks, bind_ok (block_alive there), bind_ok ran]
      cases written with
      | false =>
          exact ⟨false, turns, rf, disk, rfl, ⟨rewrote.ordered, rewrote.lru, tidy, kept,
            rewrote.table⟩, nofun⟩
      | true =>
          let middle : Image := { s with turns := turns ++ s.turns, rf := rf, disk := disk }
          have further : ∀ q ∈ rest, q ∈ middle.rf.lru := by
            intro q member
            change q ∈ rf.lru
            rw [rewrote.lru]
            exact linked q (List.mem_cons_of_mem _ member)
          obtain ⟨stored, more, blocks, file, ended, flushed, all⟩ :=
            ih (show Ordered middle from rewrote.ordered) further
          refine ⟨stored, more ++ turns, blocks, file, ?_, ?_, ?_⟩
          · rw [if_pos rfl, ended, List.append_assoc]
          · refine ⟨flushed.ordered, flushed.lru.trans rewrote.lru,
              fun q before => flushed.tidy q (tidy q before), ?_, ?_⟩
            · intro clear other content named has
              apply flushed.blocks (fun noted => clear (List.mem_append_left _ noted)) _ _ named
              exact kept (fun noted => clear (List.mem_append_right _ noted)) _ _ named has
            · intro clear position first last
              have before := rewrote.table (fun noted => clear (List.mem_append_right _ noted))
              have behind := flushed.table fun noted => clear (List.mem_append_left _ noted)
              exact (behind position first last).trans (before position first last)
          · intro done q member
            rcases List.mem_cons.mp member with same | later
            · rw [same]
              exact flushed.tidy p (tidied (.inl rfl))
            · exact all done q later

theorem keeps_flush_tables {holds : Image → Prop}
    (write : ∀ p, Keeps holds (qcowL2CacheWrite p)) (nodes : List Nat) :
    Keeps holds (flushTables nodes) := by
  induction nodes with
  | nil => exact keeps_pure _
  | cons p rest ih =>
      rw [flushTables]
      refine Keeps.bind (write p) ?_
      intro written
      split
      · exact ih
      · exact keeps_pure _

theorem turned_flush_blocks {kind : Turn → Prop} (nodes : List Nat) :
    Keeps (Turned kind) (flushBlocks nodes) := by
  induction nodes with
  | nil => exact keeps_pure _
  | cons p rest ih =>
      rw [flushBlocks]
      refine Keeps.bind (keeps_block_at p) ?_
      intro c
      refine Keeps.bind (turned_write_block _ _) ?_
      intro written
      split
      · exact ih
      · exact keeps_pure _

theorem keeps_flush_rest {holds : Image → Prop} (write : ∀ p, Keeps holds (qcowL2CacheWrite p))
    (sync : Keeps holds fsync) : Keeps holds flushRest := by
  unfold flushRest
  refine Keeps.bind (keeps_read _) ?_
  intro tables
  refine Keeps.bind (keeps_flush_tables write tables) ?_
  intro stored
  split
  · refine Keeps.bind sync ?_
    intro synced
    exact keeps_pure _
  · exact keeps_pure _

theorem turned_flush {kind : Turn → Prop} : Keeps (Turned kind) qcowDiskFlush := by
  unfold qcowDiskFlush
  refine Keeps.bind (keeps_read _) ?_
  intro blocks
  refine Keeps.bind (turned_flush_blocks blocks) ?_
  intro stored
  split
  · exact keeps_flush_rest turned_cache_write (keeps_same fun _ => rfl)
  · exact keeps_pure _

theorem safe_sync_file : Keeps Safe fsync := by
  apply safe (keeps_same fun _ => rfl)
  intro s settled
  exact .inr (settled.read rfl)

/-- All nodes of the cache are as the file has them. -/
def AllTidy (s : Image) : Prop := ∀ p ∈ s.rf.lru, Tidy p s.rf

theorem tidy_flush_rest : Keeps AllTidy flushRest := by
  apply keeps_flush_rest
  · intro p s tidy
    cases there : s.l2.cells p with
    | none =>
        rw [qcowL2CacheWrite, bind_error (table_dead there)]
        exact tidy
    | some c =>
        obtain ⟨written, after, ran, same, _⟩ := cache_write_ran there
        rw [ran, AllTidy, same]
        exact tidy
  · exact fun _ tidy => tidy

/-- In a state where nothing was lost and no node is dirty, everything is in the file. -/
theorem Settled.durable {s : Image} (settled : Settled s) (tidy : AllTidy s) : Durable s := by
  refine ⟨settled.l1Table, ?_, ?_⟩
  · intro offset table changed
    rw [settled.tables offset] at changed
    cases changed
  · intro offset content changed
    obtain ⟨_, has⟩ := settled.blocks offset content changed
    cases there : held blockKey offset.toNat s.rf with
    | none => exact (has_stored there).mp has
    | some rfb =>
        obtain ⟨p, member, here, _⟩ := held_linked there
        refine ((has_held there).mp has).2 ?_
        exact tidy p (settled.ordered.sound.same.mem_iff.mp member) rfb here

/-! Runs. -/

def writesAndFlush (m : Machine) (requests : List WriteRequest) : Op Int := do
  writes m requests
  qcowDiskFlush

/-- An image that was opened and not used yet, with the level 1 table of its file. -/
structure Started (s : Image) : Prop extends Opened s where
  clean : Clean s.disk.file
  l1Table : ∀ i < s.tableSize,
    storedTable s.disk.file s.tableSize s.header.l1TableOffset.toNat i = s.l1Table i
  changedTables : s.changedTables = fun _ => none
  changedBlocks : s.changedBlocks = fun _ => none

theorem Started.settled {s : Image} (started : Started s) : Settled s := by
  refine ⟨?_, started.l1Table, fun offset => congrFun started.changedTables offset, ?_⟩
  · rw [Ordered, started.rf]
    exact ⟨sound_empty, nofun, nofun, nofun, started.clean⟩
  · intro offset content changed
    rw [started.changedBlocks] at changed
    cases changed

/-- A flush that returns 0 leaves everything in the file, after any writes, when none of
them has taken a turn that loses something. -/
theorem flush_durable (m : Machine) (requests : List WriteRequest) (start : Image)
    (started : Started start) (lossless : ¬ Turned Lossy (writesAndFlush m requests start).2)
    (zero : (writesAndFlush m requests start).1 = .ok 0) :
    Durable (writesAndFlush m requests start).2 := by
  have reached := Kept.writes (kept_safe m) requests start (.inr started.settled)
  rw [writesAndFlush] at lossless zero ⊢
  cases ran : writes m requests start with
  | mk outcome middle =>
      rw [ran] at reached
      cases outcome with
      | error fault =>
          rw [bind_error ran] at zero
          cases zero
      | ok _ =>
          rw [bind_ok ran] at lossless zero ⊢
          have settled := reached.resolve_left fun taken => lossless (turned_flush _ taken)
          obtain ⟨stored, turns, rf, disk, ended, flushed, all⟩ :=
            flush_blocks_ran settled.ordered middle.rf.lru fun _ member => member
          have list : QcowNodes.read (fun s => s.rf.lru) middle = (.ok middle.rf.lru, middle) := rfl
          rw [qcowDiskFlush, bind_ok list, bind_ok ended] at lossless zero ⊢
          cases stored with
          | false => cases zero
          | true =>
              let later : Image := { middle with
                turns := turns ++ middle.turns
                rf := rf
                disk := disk }
              have turned : Keeps (Turned Lossy) flushRest :=
                keeps_flush_rest turned_cache_write (keeps_same fun _ => rfl)
              have clear {turn : Turn} (lossy : Lossy turn) : turn ∉ turns := fun taken =>
                lossless (turned later ⟨turn, List.mem_append_left _ taken, lossy⟩)
              have kept : Settled later :=
                (settled.wrote flushed.ordered (flushed.table (clear trivial))
                  (flushed.blocks (clear trivial))).aside _ _ _ _
              have tidy : AllTidy later := by
                intro p member
                apply all rfl
                change p ∈ rf.lru at member
                rwa [flushed.lru] at member
              have safe := keeps_flush_rest safe_cache_write safe_sync_file later (.inr kept)
              exact (safe.resolve_left lossless).durable (tidy_flush_rest later tidy)

/-- An image of 32 KiB with the level 1 table at 0x1000 and one level 2 table at 0x1400,
whose first entry has the flag COPIED. -/
def entryAt (page : UInt8) : Image where
  header := ⟨32768, 4096, 1, 9, 6, 4608, 1⟩
  tableSize := 1
  l1Table := fun i => if i = 0 then 0x8000000000001400 else 0
  l2 := empty
  rfSize := 1
  rfTable := fun _ => 0
  rf := empty
  freeClustIdx := 0
  copyBuff := fun _ => 0
  disk :=
    { file :=
        { bytes := fun i =>
            if i = 4096 ∨ i = 5120 then 0x80
            else if i = 4102 then 0x14
            else if i = 5126 then page
            else 0
          size := 8192
          fixed := false }
      calls := 0
      host := fun _ => .moves 512 }
  turns := []
  changedTables := fun _ => none
  changedBlocks := fun _ => none

theorem entry_started (page : UInt8)
    (table : storedTable (entryAt page).disk.file 1 4096 0 = 0x8000000000001400) :
    Started (entryAt page) := by
  refine ⟨⟨rfl, rfl, rfl⟩, ?_, ?_, rfl, rfl⟩
  · intro position behind
    change 8192 ≤ position at behind
    change (if position = 4096 ∨ position = 5120 then 0x80 else _) = (0 : UInt8)
    rw [if_neg (by omega), if_neg (by omega), if_neg (by omega)]
  · intro i early
    obtain rfl : i = 0 := Nat.lt_one_iff.mp early
    exact table

/-- The image without the entry, and with a refcount block at 0x200. The host fails the call
that would store the count of a new cluster. -/
def unstored : Image :=
  { entryAt 0 with
    rfTable := fun _ => 0x200
    freeClustIdx := 20
    disk :=
      { file := ⟨fun i => if i = 4096 then 0x80 else if i = 4102 then 0x14 else 0, 8192, false⟩
        calls := 0
        host := fun call => if call = 2 then .fails else .moves 512 } }

theorem unstored_started
    (table : storedTable unstored.disk.file 1 4096 0 = 0x8000000000001400) : Started unstored := by
  refine ⟨⟨rfl, rfl, rfl⟩, ?_, ?_, rfl, rfl⟩
  · intro position behind
    change 8192 ≤ position at behind
    change (if position = 4096 then 0x80 else _) = (0 : UInt8)
    rw [if_neg (by omega), if_neg (by omega)]
  · intro i early
    obtain rfl : i = 0 := Nat.lt_one_iff.mp early
    exact table

/-- The count is in the cache alone, and the flush stores it. -/
theorem dirty_block_durable :
    ((writes ⟨64, fun _ => 0⟩ [firstSector] unstored).2.rf.lru.map fun p =>
      ((writes ⟨64, fun _ => 0⟩ [firstSector] unstored).2.rf.cells p).map (·.dirty)) =
        [some true] ∧
    ((writesAndFlush ⟨64, fun _ => 0⟩ [firstSector] unstored).2.changedBlocks 0x200).isSome ∧
    Durable (writesAndFlush ⟨64, fun _ => 0⟩ [firstSector] unstored).2 := by
  have quiet : (writesAndFlush ⟨64, fun _ => 0⟩ [firstSector] unstored).2.turns = [] := by
    decide +kernel
  refine ⟨by decide +kernel, by decide +kernel, ?_⟩
  apply flush_durable _ _ _ (unstored_started (by decide +kernel))
  · rintro ⟨turn, taken, _⟩
    rw [quiet] at taken
    cases taken
  · decide +kernel

/-- The entry names the cluster of the level 1 table itself. -/
theorem table_overwritten : Started (entryAt 0x10) ∧
    (writesAndFlush ⟨8, fun _ => 0⟩ [firstSector] (entryAt 0x10)).1 = .ok 0 ∧
    ¬ Durable (writesAndFlush ⟨8, fun _ => 0⟩ [firstSector] (entryAt 0x10)).2 := by
  refine ⟨entry_started 0x10 (by decide +kernel), by decide +kernel, ?_⟩
  intro durable
  have stored := durable.l1Table 0 (by decide +kernel)
  revert stored
  decide +kernel

end VirtioDisk.FlushDurability
