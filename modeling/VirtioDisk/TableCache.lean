import VirtioDisk.NodeRecency
import VirtioDisk.QcowReference
import VirtioDisk.SearchTree

/-!
The cache of level 2 tables of disk/qcow.c as it is in memory: a search tree, the
list `lru_list` and the counter `nr_cached`, each with its own statements. What
rb_insert_color and rb_erase make of the tree is any rebalancing. A call may find no
memory; an address is given out once.
-/

namespace VirtioDisk.TableCache

open ByteStore NodeCache NodeRecency QcowImage ReadWrite SearchTree Transition
open QcowRead (be64 intOne int_one_pos)
open QcowReference (SameFile Serves loaded_table pread_in_full_same pread_in_full_spec storedTable)

/-- Why a call has no meaning: it reads a node that was freed, or takes one out of
a list or a tree that does not have it. -/
inductive Fault where
  | freed
  | unlinked
  deriving DecidableEq

/-- `struct qcow_l1_table` but for its own table, with the memory of the nodes. -/
structure L1Table where
  cells : Nat → Option L2Table
  next : Nat
  root : SearchTree.Tree Nat
  lruList : List Nat
  nrCached : Nat

structure Qcow where
  l2Bits : Nat
  table : L1Table
  disk : ImageFile

def Qcow.l2tSize (q : Qcow) : Nat := intOne q.l2Bits

def opened (l2Bits : Nat) (disk : ImageFile) : Qcow := ⟨l2Bits, ⟨fun _ => none, 0, .leaf, [], 0⟩, disk⟩

def tableKey (c : L2Table) : Nat := c.offset.toNat

def keyAt (l1t : L1Table) (p : Nat) : Option Nat := (l1t.cells p).map tableKey

def l2TableLookup (l1t : L1Table) (offset : UInt64) : Except Fault (Option Nat) :=
  match SearchTree.lookup (keyAt l1t) offset.toNat l1t.root with
  | none => .error .freed
  | some found => .ok found

def l2TableSearch (l1t : L1Table) (offset : UInt64) : Except Fault (Option Nat × L1Table) := do
  let found ← l2TableLookup l1t offset
  match found with
  | none => .ok (none, l1t)
  | some l2t => .ok (some l2t, { l1t with lruList := l1t.lruList.erase l2t ++ [l2t] })

def newCacheTable (l1t : L1Table) (c : L2Table) : Nat × L1Table :=
  (l1t.next, { l1t with
    cells := fun q => if q = l1t.next then some c else l1t.cells q
    next := l1t.next + 1 })

def freeTable (l1t : L1Table) (p : Nat) : L1Table :=
  { l1t with cells := fun q => if q = p then none else l1t.cells q }

section Rebalanced
variable (rb : Rebalancing Nat)

-- A table that has the offset already leaves the tree as it is.
def l2TableInsert (l1t : L1Table) (p : Nat) : Except Fault L1Table :=
  match keyAt l1t p with
  | none => .error .freed
  | some offset =>
      match SearchTree.link (keyAt l1t) offset p l1t.root with
      | none => .error .freed
      | some none => .ok l1t
      | some (some root) => .ok { l1t with root := rb.insertColor p root }

/-- The head of the list is taken out and freed. -/
def evictLru (l1t : L1Table) : Except Fault L1Table :=
  match l1t.lruList with
  | [] => .error .unlinked
  | lru :: rest =>
      if lru ∈ l1t.root.inorder ∧ (l1t.cells lru).isSome then
        .ok (freeTable { l1t with
          root := rb.erase lru l1t.root
          lruList := rest
          nrCached := l1t.nrCached - 1 } lru)
      else .error .unlinked

def cacheTable (l1t : L1Table) (p : Nat) : Except Fault L1Table := do
  let l1t ← if l1t.nrCached = maxCacheNodes then evictLru rb l1t else .ok l1t
  let l1t ← l2TableInsert rb l1t p
  .ok { l1t with lruList := l1t.lruList ++ [p], nrCached := l1t.nrCached + 1 }

/-- One call of `qcow_read_l2_table`. -/
structure Call where
  offset : UInt64
  allocated : Bool

def qcowReadL2Table (q : Qcow) (call : Call) : Except Fault (Option Nat × Qcow) := do
  let (found, table) ← l2TableSearch q.table call.offset
  match found with
  | some l2t => .ok (some l2t, { q with table := table })
  | none =>
      if call.allocated then
        match preadInFull q.disk (8 * q.l2tSize) call.offset with
        | (none, disk) =>
            let (l2t, table) := newCacheTable table ⟨call.offset, false, fun _ => 0⟩
            .ok (none, { q with table := freeTable table l2t, disk := disk })
        | (some bytes, disk) => do
            -- What was not read is zero: the node comes from calloc.
            let (l2t, table) := newCacheTable table ⟨call.offset, false, be64 bytes⟩
            let table ← cacheTable rb table l2t
            .ok (some l2t, { q with table := table, disk := disk })
      else .ok (none, { q with table := table })

/-- A call with the table it returns. -/
def answer (q : Qcow) (call : Call) : Except Fault (Qcow × Option L2Table) := do
  let (found, after) ← qcowReadL2Table rb q call
  .ok (after, found.bind after.table.cells)

end Rebalanced

/-! The tree is as good as the sequence of its nodes. -/

def flat (l1t : L1Table) : Cache L2Table :=
  ⟨l1t.cells, l1t.next, l1t.root.inorder, l1t.lruList, l1t.nrCached⟩

abbrev SoundTable (l1t : L1Table) : Prop := Sound tableKey maxCacheNodes (flat l1t)

section Refinement
variable (rb : Rebalancing Nat) {l1t : L1Table} {p : Nat} {c : L2Table}

theorem sound_ordered (sound : SoundTable l1t) : Ordered (keyAt l1t) l1t.root.inorder := by
  constructor
  · intro p member
    obtain ⟨node, there⟩ := sound.tree_live member
    have cell : l1t.cells p = some node := there
    exact ⟨tableKey node, by rw [keyAt, cell]; rfl⟩
  · refine sound.ordered.imp ?_
    intro p q apart one two here there
    obtain ⟨first, atFirst, rfl⟩ := Option.map_eq_some_iff.mp here
    obtain ⟨second, atSecond, rfl⟩ := Option.map_eq_some_iff.mp there
    exact apart first second atFirst atSecond

theorem lookup_refines (sound : SoundTable l1t) (offset : UInt64) :
    l2TableLookup l1t offset = .ok (find tableKey offset.toNat (flat l1t)) := by
  rw [l2TableLookup, lookup_find l1t.root (sound_ordered sound)]
  rfl

theorem search_refines (sound : SoundTable l1t) (offset : UInt64) :
    ∃ after, l2TableSearch l1t offset = .ok (find tableKey offset.toNat (flat l1t), after) ∧
      search tableKey offset.toNat (flat l1t) =
        some (find tableKey offset.toNat (flat l1t), flat after) := by
  rw [l2TableSearch, lookup_refines sound, search, if_neg sound.intact]
  cases find tableKey offset.toNat (flat l1t) with
  | none => exact ⟨l1t, rfl, rfl⟩
  | some l2t => exact ⟨_, rfl, rfl⟩

theorem place_while (l1t : L1Table) (wanted p : Nat) (nodes : List Nat) :
    place tableKey (flat l1t) wanted p nodes =
      nodes.takeWhile (below (keyAt l1t) wanted) ++
        p :: nodes.dropWhile (below (keyAt l1t) wanted) := by
  induction nodes with
  | nil => rfl
  | cons q rest ih =>
      have same : before tableKey (flat l1t) wanted q = below (keyAt l1t) wanted q := by
        rw [before, below, keyAt]
        cases there : l1t.cells q <;> simp [flat, there]
      rw [place, same]
      by_cases first : below (keyAt l1t) wanted q
      · rw [if_pos first, ih, List.takeWhile_cons_of_pos first, List.dropWhile_cons_of_pos first]
        rfl
      · rw [if_neg first, List.takeWhile_cons_of_neg first, List.dropWhile_cons_of_neg first]
        rfl

theorem insert_refines (sound : SoundTable l1t) (there : l1t.cells p = some c)
    (missing : find tableKey (tableKey c) (flat l1t) = none) :
    ∃ after, l2TableInsert rb l1t p = .ok after ∧
      flat after = { flat l1t with tree := NodeCache.insert tableKey p (tableKey c) (flat l1t) } := by
  have key : keyAt l1t p = some (tableKey c) := by
    rw [keyAt, there]
    rfl
  have absent : ∀ q ∈ l1t.root.inorder, keyAt l1t q ≠ some (tableKey c) := by
    intro q member same
    obtain ⟨other, here, equal⟩ := Option.map_eq_some_iff.mp same
    exact find_none missing member here equal
  obtain ⟨root, links, sequence⟩ := link_inorder l1t.root p (sound_ordered sound) absent
  rw [l2TableInsert, key]
  dsimp only
  rw [links]
  refine ⟨_, rfl, ?_⟩
  rw [NodeCache.insert, missing]
  show Cache.mk _ _ (rb.insertColor p root).inorder _ _ = _
  rw [rb.insert_inorder, sequence, ← place_while]
  rfl

theorem evict_refines (sound : SoundTable l1t) (full : l1t.nrCached = maxCacheNodes) :
    ∃ after, evictLru rb l1t = .ok after ∧ evict (flat l1t) = some (flat after) := by
  have enough : (flat l1t).nrCached = maxCacheNodes := full
  obtain ⟨_, _, evicts, _⟩ := evict_sound sound enough (by decide)
  rw [evictLru]
  rw [evict] at evicts ⊢
  cases list : l1t.lruList with
  | nil =>
      have none : (flat l1t).lru = [] := list
      rw [none] at evicts
      cases evicts
  | cons lru rest =>
      have some : (flat l1t).lru = lru :: rest := list
      rw [some] at evicts ⊢
      dsimp only at evicts ⊢
      by_cases linked : lru ∈ (flat l1t).tree ∧ ((flat l1t).cells lru).isSome
      · rw [if_pos linked]
        refine ⟨_, if_pos linked, ?_⟩
        show _ = Option.some (Cache.mk _ _ (rb.erase lru l1t.root).inorder _ _)
        rw [rb.erase_inorder]
        rfl
      · rw [if_neg linked] at evicts
        cases evicts

/-- What follows the eviction. -/
theorem enter_refines (sound : SoundTable l1t) (there : l1t.cells p = some c)
    (missing : find tableKey (tableKey c) (flat l1t) = none) :
    ∃ after, (l2TableInsert rb l1t p >>= fun l1t =>
        .ok { l1t with lruList := l1t.lruList ++ [p], nrCached := l1t.nrCached + 1 }) =
          Except.ok after ∧
      flat after = { flat l1t with
        tree := NodeCache.insert tableKey p (tableKey c) (flat l1t)
        lru := (flat l1t).lru ++ [p]
        nrCached := (flat l1t).nrCached + 1 } := by
  obtain ⟨after, inserts, same⟩ := insert_refines rb sound there missing
  refine ⟨{ after with lruList := after.lruList ++ [p], nrCached := after.nrCached + 1 }, ?_, ?_⟩
  · rw [inserts]
    rfl
  · have list : after.lruList = l1t.lruList := congrArg Cache.lru same
    have count : after.nrCached = l1t.nrCached := congrArg Cache.nrCached same
    have tree : after.root.inorder = NodeCache.insert tableKey p (tableKey c) (flat l1t) :=
      congrArg Cache.tree same
    have cells : after.cells = l1t.cells := congrArg Cache.cells same
    have next : after.next = l1t.next := congrArg Cache.next same
    simp only [flat, list, count, tree, cells, next]

theorem cache_refines (sound : SoundTable l1t) (there : l1t.cells p = some c)
    (unlinked : p ∉ l1t.lruList) (missing : find tableKey (tableKey c) (flat l1t) = none) :
    ∃ after, cacheTable rb l1t p = .ok after ∧
      NodeCache.link tableKey maxCacheNodes p (flat l1t) = some (flat after) := by
  rw [cacheTable, NodeCache.link]
  by_cases full : l1t.nrCached = maxCacheNodes
  · have enough : (flat l1t).nrCached = maxCacheNodes := full
    obtain ⟨smaller, makes, evicts⟩ := evict_refines rb sound full
    obtain ⟨head, room, also, evicted, still, _⟩ := evict_sound sound enough (by decide)
    have same : room = flat smaller := Option.some.inj (also.symm.trans evicts)
    subst same
    have other : p ≠ head := by
      rintro rfl
      have list : l1t.lruList = p :: smaller.lruList := evicted.lru
      rw [list] at unlinked
      exact unlinked List.mem_cons_self
    have cell : smaller.cells p = some c :=
      (congrFun evicted.cells p).trans ((if_neg other).trans there)
    obtain ⟨after, enters, same⟩ := enter_refines rb still cell (evicted.missing missing)
    have alive : (flat smaller).cells p = some c := cell
    rw [if_pos full, if_pos enough, makes, evicts, Option.bind_some, alive]
    exact ⟨after, enters, by rw [same]; exact if_neg still.intact⟩
  · have room : (flat l1t).nrCached ≠ maxCacheNodes := full
    obtain ⟨after, enters, same⟩ := enter_refines rb sound there missing
    have alive : (flat l1t).cells p = some c := there
    rw [if_neg full, if_neg room, Option.bind_some, alive]
    exact ⟨after, enters, by rw [same]; exact if_neg sound.intact⟩

end Refinement

/-! One call. -/

/-- The cached tables, the one used last at the end. -/
def tables (q : Qcow) : List L2Table := nodes (flat q.table)

inductive Answered (q : Qcow) (call : Call) (after : Qcow) : Option L2Table → Prop where
  | hit (c) : LruCache.lookup tableKey call.offset.toNat (tables q) = some c →
      tables after = LruCache.touch tableKey call.offset.toNat (tables q) →
      Answered q call after (some c)
  | refused : tables after = tables q → Answered q call after none
  | loaded (bytes) : LruCache.lookup tableKey call.offset.toNat (tables q) = none →
      call.allocated = true →
      (preadInFull q.disk (8 * q.l2tSize) call.offset).1 = some bytes →
      tables after = LruCache.insert maxCacheNodes ⟨call.offset, false, be64 bytes⟩ (tables q) →
      Answered q call after (some ⟨call.offset, false, be64 bytes⟩)

/-- Only the head of the list leaves it, and only a full one. -/
def HeadEvicted (q after : Qcow) : Prop :=
  ∀ p ∈ q.table.lruList, p ∉ after.table.lruList →
    q.table.nrCached = maxCacheNodes ∧ q.table.lruList.head? = some p

structure Step (q : Qcow) (call : Call) (after : Qcow) (reply : Option L2Table) : Prop where
  sound : SoundTable after.table
  bits : after.l2Bits = q.l2Bits
  file : SameFile q.disk after.disk
  evicted : HeadEvicted q after
  answered : Answered q call after reply

section Calls
variable (rb : Rebalancing Nat) {q : Qcow} {call : Call}

theorem hit_step (sound : SoundTable q.table) {p : Nat}
    (found : find tableKey call.offset.toNat (flat q.table) = some p) :
    ∃ after reply, answer rb q call = .ok (after, reply) ∧ Step q call after reply := by
  obtain ⟨list, searches, refined⟩ := search_refines sound call.offset
  obtain ⟨_, also, still, _, cells, _⟩ := search_sound sound call.offset.toNat
  obtain ⟨_, again, used⟩ := search_nodes sound call.offset.toNat
  rw [refined] at also again
  cases also
  cases again
  obtain ⟨_, c, there, _⟩ := find_spec found
  rw [found] at searches
  have held := (held_spec found there).symm.trans (held_nodes sound call.offset.toNat)
  have here : list.cells p = some c := (congrFun cells p).trans there
  refine ⟨{ q with table := list }, some c, ?_, still, rfl, ⟨rfl, rfl⟩, ?_, .hit c held.symm used⟩
  · rw [answer, qcowReadL2Table, searches]
    show Except.ok (_, list.cells p) = _
    rw [here]
  · intro r member gone
    exact absurd (search_keeps refined member) gone

theorem miss_search (sound : SoundTable q.table)
    (missing : find tableKey call.offset.toNat (flat q.table) = none) :
    l2TableSearch q.table call.offset = .ok (none, q.table) := by
  rw [l2TableSearch, lookup_refines sound, missing]
  rfl

theorem fresh_unlinked (sound : SoundTable q.table) : q.table.next ∉ q.table.lruList := by
  intro member
  obtain ⟨node, there⟩ := sound.live q.table.next member
  exact absurd (sound.below there) (Nat.lt_irrefl _)

theorem failed_step (sound : SoundTable q.table)
    (missing : find tableKey call.offset.toNat (flat q.table) = none)
    (allocated : call.allocated = true)
    (failed : (preadInFull q.disk (8 * q.l2tSize) call.offset).1 = none) :
    ∃ after reply, answer rb q call = .ok (after, reply) ∧ Step q call after reply := by
  have same := pread_in_full_same q.disk (8 * q.l2tSize) call.offset
  cases read : preadInFull q.disk (8 * q.l2tSize) call.offset with
  | mk bytes disk =>
      rw [read] at failed same
      cases failed
      have fresh := fresh_unlinked sound
      have still : SoundTable (freeTable (newCacheTable q.table ⟨call.offset, false, fun _ => 0⟩).2
          q.table.next) := (sound.malloc _).free fresh
      refine ⟨{ q with
        table := freeTable (newCacheTable q.table ⟨call.offset, false, fun _ => 0⟩).2 q.table.next
        disk := disk }, none, ?_, still, rfl, same, fun _ member gone => absurd member gone,
        .refused ?_⟩
      · rw [answer, qcowReadL2Table, miss_search sound missing]
        simp only [bind, Except.bind, allocated, if_true, read]
        rfl
      · exact (nodes_free fresh).trans (nodes_malloc sound _)

theorem loaded_step (sound : SoundTable q.table)
    (missing : find tableKey call.offset.toNat (flat q.table) = none)
    (allocated : call.allocated = true) {bytes : List UInt8}
    (read : (preadInFull q.disk (8 * q.l2tSize) call.offset).1 = some bytes) :
    ∃ after reply, answer rb q call = .ok (after, reply) ∧ Step q call after reply := by
  have same := pread_in_full_same q.disk (8 * q.l2tSize) call.offset
  have fresh := fresh_unlinked sound
  have looked : LruCache.lookup tableKey call.offset.toNat (tables q) = none := by
    rw [tables, ← held_nodes sound, held_none]
    exact missing
  have found := read
  cases outcome : preadInFull q.disk (8 * q.l2tSize) call.offset with
  | mk result disk =>
      rw [outcome] at read same
      cases read
      let node : L2Table := ⟨call.offset, false, be64 bytes⟩
      let larger : L1Table := (newCacheTable q.table node).2
      have grown : SoundTable larger := sound.malloc node
      have there : larger.cells q.table.next = some node := malloc_cells node (flat q.table)
      have absent : find tableKey (tableKey node) (flat larger) = none := by
        rw [← held_none]
        have kept : held tableKey (tableKey node) (flat larger) = _ := held_malloc sound node
        rw [kept, held_none]
        exact missing
      obtain ⟨after, caches, links⟩ := cache_refines rb grown there fresh absent
      obtain ⟨_, also, still, here, inserted⟩ := link_nodes grown (by decide) there fresh absent
      rw [links] at also
      cases also
      have cached : cacheTable rb (newCacheTable q.table ⟨call.offset, false, be64 bytes⟩).2
          (newCacheTable q.table ⟨call.offset, false, be64 bytes⟩).1 = .ok after := caches
      refine ⟨{ q with table := after, disk := disk }, some node, ?_, still, rfl, same, ?_,
        .loaded bytes looked allocated found ?_⟩
      · rw [answer, qcowReadL2Table, miss_search sound missing]
        simp only [bind, Except.bind, allocated, if_true, outcome, cached]
        show Except.ok (_, after.cells q.table.next) = _
        rw [show after.cells q.table.next = some node from here]
      · intro r member gone
        exact link_leaves links member gone
      · show nodes (flat after) = _
        rw [inserted]
        exact congrArg _ (nodes_malloc sound node)

theorem answer_step (sound : SoundTable q.table) (call : Call) :
    ∃ after reply, answer rb q call = .ok (after, reply) ∧ Step q call after reply := by
  cases found : find tableKey call.offset.toNat (flat q.table) with
  | some p => exact hit_step rb sound found
  | none =>
      by_cases allocated : call.allocated = true
      · cases read : (preadInFull q.disk (8 * q.l2tSize) call.offset).1 with
        | none => exact failed_step rb sound found allocated read
        | some bytes => exact loaded_step rb sound found allocated read
      · refine ⟨q, none, ?_, sound, rfl, ⟨rfl, rfl⟩, fun _ member gone => absurd member gone,
          .refused rfl⟩
        rw [answer, qcowReadL2Table, miss_search sound found]
        simp [allocated, bind, Except.bind]

end Calls

/-! The three views of the cache. -/

structure Coherent (l1t : L1Table) : Prop where
  same : l1t.root.inorder.Perm l1t.lruList
  once : l1t.lruList.Nodup
  live : ∀ p ∈ l1t.lruList, (l1t.cells p).isSome
  distinct : (l1t.lruList.map (keyAt l1t)).Nodup
  counted : l1t.nrCached = l1t.lruList.length
  bounded : l1t.nrCached ≤ maxCacheNodes
  found : ∀ offset : UInt64, ∃ hit, l2TableLookup l1t offset = .ok hit ∧
    ∀ p, hit = some p ↔ p ∈ l1t.lruList ∧ keyAt l1t p = some offset.toNat

theorem SoundTable.coherent {l1t : L1Table} (sound : SoundTable l1t) : Coherent l1t := by
  have cell {p : Nat} {offset : Nat} (key : keyAt l1t p = some offset) :
      ∃ c, (flat l1t).cells p = some c ∧ tableKey c = offset := Option.map_eq_some_iff.mp key
  constructor
  · exact sound.same
  · exact sound.once
  · intro p member
    obtain ⟨c, there⟩ := sound.live p member
    exact Option.isSome_iff_exists.mpr ⟨c, there⟩
  · apply List.Nodup.map_on ?_ sound.once
    intro p first q second equal
    obtain ⟨c, there⟩ := sound.live p first
    have one : keyAt l1t p = some (tableKey c) := congrArg (Option.map tableKey) there
    obtain ⟨other, here, same⟩ := cell (equal.symm.trans one)
    exact sound.alike (sound.same.mem_iff.mpr first) (sound.same.mem_iff.mpr second) there here
      same.symm
  · exact sound.counted
  · exact Nat.le_trans (Nat.le_of_eq sound.counted) sound.bounded
  · intro offset
    refine ⟨_, lookup_refines sound offset, fun p => ⟨fun found => ?_, fun ⟨member, key⟩ => ?_⟩⟩
    · obtain ⟨linked, c, there, same⟩ := find_spec found
      refine ⟨sound.same.mem_iff.mp linked, ?_⟩
      rw [← same]
      exact congrArg (Option.map tableKey) there
    · obtain ⟨c, there, same⟩ := cell key
      rw [← same]
      exact sound.find_linked (sound.same.mem_iff.mpr member) there

/-- The offsets by their last successful call, the latest one last. -/
def noteUse (recent : List Nat) (call : Call) (reply : Option L2Table) : List Nat :=
  if reply.isSome then LruCache.used recent call.offset.toNat else recent

def recentOffsets (calls : List Call) (results : List (Option L2Table)) : List Nat :=
  (calls.zip results).foldl (fun recent pair => noteUse recent pair.1 pair.2) []

structure Views (recent : List Nat) (q : Qcow) : Prop where
  sound : SoundTable q.table
  recent : LruCache.Recent tableKey maxCacheNodes recent (tables q)

section Runs
variable (rb : Rebalancing Nat) {q : Qcow} {recent : List Nat}

theorem Views.list (views : Views recent q) :
    q.table.lruList.map (keyAt q.table) = (recent.rtake maxCacheNodes).map some := by
  have live : ∀ p ∈ q.table.lruList, ∃ c, q.table.cells p = some c := views.sound.live
  rw [← views.recent.keys, tables, nodes]
  show q.table.lruList.map (keyAt q.table) =
    ((q.table.lruList.filterMap q.table.cells).map tableKey).map some
  generalize q.table.lruList = list at live ⊢
  induction list with
  | nil => rfl
  | cons p rest ih =>
      obtain ⟨c, there⟩ := live p List.mem_cons_self
      have key : keyAt q.table p = some (tableKey c) := congrArg (Option.map tableKey) there
      rw [List.map_cons, List.filterMap_cons_some there, List.map_cons, List.map_cons, key,
        ih fun r member => live r (List.mem_cons_of_mem p member)]

theorem answer_views (views : Views recent q) (call : Call) :
    ∃ after reply, answer rb q call = .ok (after, reply) ∧ HeadEvicted q after ∧
      Views (noteUse recent call reply) after := by
  obtain ⟨after, reply, answers, step⟩ := answer_step rb views.sound call
  refine ⟨after, reply, answers, step.evicted, step.sound, ?_⟩
  cases step.answered with
  | hit c found used =>
      rw [used]
      exact views.recent.touch found
  | refused same =>
      rw [same]
      exact views.recent
  | loaded bytes missing allocated read inserted =>
      have none : LruCache.lookup tableKey (tableKey ⟨call.offset, false, be64 bytes⟩)
          (tables q) = none := missing
      rw [inserted]
      exact views.recent.insert (by decide) none

/-- Whatever the calls and the host, the views agree, and the list is in the order of the
last uses. -/
theorem views_agree (l2Bits : Nat) (disk : ImageFile) (calls : List Call) :
    ∃ results q, replies (answer rb) (opened l2Bits disk) calls = .ok (results, q) ∧
      Views (recentOffsets calls results) q := by
  have start : Views [] (opened l2Bits disk) :=
    ⟨sound_empty, LruCache.recent_empty tableKey maxCacheNodes⟩
  have keeps (recent : List Nat) (q : Qcow) (call : Call) (views : Views recent q) (_ : True) :
      ∃ after reply, answer rb q call = .ok (after, reply) ∧ True ∧
        Views (noteUse recent call reply) after := by
    obtain ⟨after, reply, answers, _, kept⟩ := answer_views rb views call
    exact ⟨after, reply, answers, trivial, kept⟩
  obtain ⟨results, q, ran, _, views⟩ := replies_tracked noteUse keeps [] start (meets_any _ _ calls)
  exact ⟨results, q, ran, views⟩

end Runs

/-! What the tables hold. -/

/-- The host breaks off a read of which it has moved a part, before the end of the file. -/
def breaksOff : Nat → ImageFile → Nat → Nat → Bool → Bool
  | 0, _, _, _, _ => false
  | turns + 1, disk, count, offset, begun =>
      let left := min count (disk.file.size - offset)
      if left = 0 then false
      else
        match disk.host disk.calls with
        | .fails | .moves 0 => begun
        | .moves (most + 1) =>
            let nr := min (most + 1) left
            breaksOff turns disk.called (count - nr) (offset + nr) true

/-- A call finds its table in the cache, or no memory, or the host does not break it off. -/
def unbroken (q : Qcow) (call : Call) : Bool :=
  match l2TableLookup q.table call.offset with
  | .ok none =>
      !call.allocated || !breaksOff (8 * q.l2tSize) q.disk (8 * q.l2tSize) call.offset.toNat false
  | _ => true

section Contents
variable {disk : ImageFile} {turns count offset : Nat} {total bytes : List UInt8}

theorem loop_stopped (stopped : (if total = [] then none else some total) = some bytes) :
    bytes = total ∧ total ≠ [] := by
  split at stopped
  · cases stopped
  · next some =>
      cases stopped
      exact ⟨rfl, some⟩

theorem pread_loop_unbroken (enough : count ≤ turns)
    (whole : breaksOff turns disk count offset (decide (total ≠ [])) = false)
    (read : (preadLoop turns disk count offset total).1 = some bytes) :
    bytes = total ++ readRange disk.file.bytes offset (min count (disk.file.size - offset)) := by
  induction turns generalizing disk count offset total with
  | zero =>
      cases read
      have none : count = 0 := by omega
      simp [none, readRange]
  | succ turns ih =>
      unfold preadLoop at read
      unfold breaksOff at whole
      by_cases none : count = 0
      · rw [if_pos none] at read
        cases read
        simp [none, readRange]
      · rw [if_neg none] at read
        by_cases behind : min count (disk.file.size - offset) = 0
        · -- At the end of the file every answer ends the loop.
          have ended : xpread disk count offset = Option.none ∨
              xpread disk count offset = some [] := by
            unfold xpread
            split
            · exact .inl rfl
            · simp [behind, readRange]
          rcases ended with failed | empty
          · rw [failed] at read
            rw [(loop_stopped read).1, behind]
            simp [readRange]
          · rw [empty] at read
            rw [(loop_stopped read).1, behind]
            simp [readRange]
        · rw [if_neg behind] at whole
          cases answer : disk.host disk.calls with
          | fails =>
              rw [xpread, answer] at read
              rw [answer] at whole
              exact absurd (loop_stopped read).2 (of_decide_eq_false whole)
          | moves most =>
              cases most with
              | zero =>
                  have empty : xpread disk count offset = some [] := by
                    rw [xpread, answer]
                    simp [readRange]
                  rw [empty] at read
                  rw [answer] at whole
                  exact absurd (loop_stopped read).2 (of_decide_eq_false whole)
              | succ most =>
                  rw [answer] at whole
                  dsimp only at whole
                  have moved : xpread disk count offset = some (readRange disk.file.bytes offset
                      (min (most + 1) (min count (disk.file.size - offset)))) := by
                    rw [xpread, answer]
                  generalize same : min (most + 1) (min count (disk.file.size - offset)) = nr at *
                  have positive : 0 < nr := by omega
                  have nonempty : readRange disk.file.bytes offset nr ≠ [] := by
                    intro empty
                    have length := congrArg List.length empty
                    rw [length_readRange, List.length_nil] at length
                    omega
                  rw [moved] at read
                  split at read
                  · next impossible => cases impossible
                  · next empty => exact absurd (Option.some.inj empty) nonempty
                  · next first _ part =>
                      cases part
                      have begun : decide (total ++ readRange disk.file.bytes offset nr ≠ []) = true :=
                        decide_eq_true fun empty => nonempty (List.append_eq_nil_iff.mp empty).2
                      rw [length_readRange] at read
                      have later := ih (by omega) (by rw [begun]; exact whole) read
                      rw [later, List.append_assoc]
                      simp only [ImageFile.called]
                      rw [← readRange_append]
                      congr 2
                      omega

/-- What a call returns is the table of the file, with zeroes behind its end. -/
def Stored (l2Bits : Nat) (file : File) (c : L2Table) : Prop :=
  ∀ index < intOne l2Bits, c.table index = storedTable file (intOne l2Bits) c.offset.toNat index

def Returns (l2Bits : Nat) (file : File) (call : Call) (reply : Option L2Table) : Prop :=
  ∀ c, reply = some c → c.offset = call.offset ∧ Stored l2Bits file c

structure Faithful (l2Bits : Nat) (file : File) (q : Qcow) : Prop where
  sound : SoundTable q.table
  bits : q.l2Bits = l2Bits
  disk : q.disk.file = file
  stored : ∀ c ∈ tables q, Stored l2Bits file c

end Contents

section Reads
variable (rb : Rebalancing Nat) {l2Bits : Nat} {file : File} {q : Qcow}

theorem loaded_stored {offset : UInt64} {bytes : List UInt8}
    (whole : breaksOff (8 * q.l2tSize) q.disk (8 * q.l2tSize) offset.toNat false = false)
    (read : (preadInFull q.disk (8 * q.l2tSize) offset).1 = some bytes) :
    Stored q.l2Bits q.disk.file ⟨offset, false, be64 bytes⟩ := by
  intro index early
  obtain ⟨nr, _, inside, content⟩ := pread_in_full_spec read
  have length : min (8 * intOne q.l2Bits) (q.disk.file.size - offset.toNat) ≤ nr := by
    unfold preadInFull at read
    split at read
    · have positive : 0 < q.l2tSize := int_one_pos q.l2Bits
      rw [if_neg (by omega)] at read
      cases read
    · have all := pread_loop_unbroken (Nat.le_refl _) whole read
      have both := congrArg List.length (all.symm.trans content)
      rw [List.nil_append, length_readRange, length_readRange] at both
      exact Nat.le_of_eq both
  show be64 bytes index = _
  rw [content]
  exact loaded_table inside length early

theorem answer_faithful (now : Faithful l2Bits file q) (call : Call)
    (whole : unbroken q call = true) :
    ∃ after reply, answer rb q call = .ok (after, reply) ∧ Returns l2Bits file call reply ∧
      Faithful l2Bits file after := by
  obtain ⟨after, reply, answers, step⟩ := answer_step rb now.sound call
  have bits : after.l2Bits = l2Bits := step.bits.trans now.bits
  have disk : after.disk.file = file := step.file.1.trans now.disk
  refine ⟨after, reply, answers, ?_⟩
  cases step.answered with
  | hit c found used =>
      refine ⟨?_, step.sound, bits, disk, ?_⟩
      · rintro _ ⟨⟩
        have same : tableKey c = call.offset.toNat := LruCache.lookup_key found
        exact ⟨UInt64.toNat_inj.mp same, now.stored c (LruCache.lookup_mem found)⟩
      · rw [used]
        exact LruCache.forall_touch now.stored
  | refused same =>
      refine ⟨?_, step.sound, bits, disk, ?_⟩
      · rintro _ ⟨⟩
      · rw [same]
        exact now.stored
  | loaded bytes missing allocated read inserted =>
      have absent : l2TableLookup q.table call.offset = .ok none := by
        rw [lookup_refines now.sound]
        rw [tables, ← held_nodes now.sound, held_none] at missing
        rw [missing]
      have unbroken : breaksOff (8 * q.l2tSize) q.disk (8 * q.l2tSize) call.offset.toNat false =
          false := by
        rw [TableCache.unbroken, absent] at whole
        simpa [allocated] using whole
      have stored : Stored l2Bits file ⟨call.offset, false, be64 bytes⟩ := by
        rw [← now.bits, ← now.disk]
        exact loaded_stored unbroken read
      refine ⟨?_, step.sound, bits, disk, ?_⟩
      · rintro _ ⟨⟩
        exact ⟨rfl, stored⟩
      · rw [inserted]
        exact LruCache.forall_insert stored now.stored

def step (q : Qcow) (call : Call) : Except Fault Qcow := (answer rb q call).map Prod.fst

theorem serving_unbroken {disk : ImageFile} (serves : Serves disk) (turns count offset : Nat)
    (begun : Bool) : breaksOff turns disk count offset begun = false := by
  induction turns generalizing disk count offset begun with
  | zero => rfl
  | succ turns ih =>
      obtain ⟨most, positive, answer⟩ := serves disk.calls
      obtain ⟨less, rfl⟩ := Nat.exists_eq_succ_of_ne_zero positive.ne'
      have onward : Serves disk.called := serves
      simp only [breaksOff, answer, ih onward, ite_self]

/-- A host that serves every call breaks off none. -/
theorem serving_meets {disk : ImageFile} (serves : Serves disk) (l2Bits : Nat)
    (calls : List Call) :
    Meets (step rb) (fun q call => unbroken q call = true) (opened l2Bits disk) calls := by
  apply meets_imp (fun q => SoundTable q.table ∧ Serves q.disk) ?_ ⟨sound_empty, serves⟩
    (meets_any (step rb) _ calls)
  intro q call now _
  obtain ⟨after, reply, answers, stepped⟩ := answer_step rb now.1 call
  constructor
  · unfold unbroken
    split
    · rw [serving_unbroken now.2, Bool.not_false, Bool.or_true]
    · rfl
  · rw [step, answers]
    refine ⟨stepped.sound, ?_⟩
    unfold Serves
    rw [stepped.file.2]
    exact now.2

/-- In every run in which the host breaks off no read of a table, the three views agree, the
list is in the order of the last uses, only its head is evicted, and every table that a call
returns is that of the file. -/
theorem tables_cached (l2Bits : Nat) (disk : ImageFile) (calls : List Call)
    (whole : Meets (step rb) (fun q call => unbroken q call = true) (opened l2Bits disk) calls) :
    ∃ results q, replies (answer rb) (opened l2Bits disk) calls = .ok (results, q) ∧
      Coherent q.table ∧
      q.table.lruList.map (keyAt q.table) =
        ((recentOffsets calls results).rtake maxCacheNodes).map some ∧
      (∀ call, ∃ after reply, answer rb q call = .ok (after, reply) ∧ HeadEvicted q after) ∧
      List.Forall₂ (Returns l2Bits disk.file) calls results := by
  obtain ⟨results, q, ran, views⟩ := views_agree rb l2Bits disk calls
  have start : Faithful l2Bits disk.file (opened l2Bits disk) :=
    ⟨sound_empty, rfl, rfl, nofun⟩
  have keeps (_ : Unit) (q : Qcow) (call : Call) (now : Faithful l2Bits disk.file q)
      (unbroken : unbroken q call = true) :
      ∃ after reply, answer rb q call = .ok (after, reply) ∧
        Returns l2Bits disk.file call reply ∧ Faithful l2Bits disk.file after :=
    answer_faithful rb now call unbroken
  obtain ⟨_, _, again, returns, _⟩ :=
    replies_tracked (fun ghost _ _ => ghost) keeps () start whole
  rw [ran] at again
  cases again
  refine ⟨results, q, ran, views.sound.coherent, views.list, fun call => ?_, returns⟩
  obtain ⟨after, reply, answers, evicted, _⟩ := answer_views rb views call
  exact ⟨after, reply, answers, evicted⟩

end Reads

/-! Two tables and a third call. The trees of one and of two nodes need no rotation. -/

def treeOf : List Nat → SearchTree.Tree Nat
  | [] => .leaf
  | p :: rest => .node .black .leaf p (treeOf rest)

theorem tree_of_inorder (list : List Nat) : (treeOf list).inorder = list := by
  induction list with
  | nil => rfl
  | cons p rest ih => rw [treeOf, SearchTree.Tree.inorder, ih]; rfl

def blackened : SearchTree.Tree Nat → SearchTree.Tree Nat
  | .leaf => .leaf
  | .node _ left p right => .node .black left p right

def smallTrees : Rebalancing Nat where
  insertColor := fun _ tree => blackened tree
  erase := fun p tree => treeOf (tree.inorder.erase p)
  insert_inorder := fun _ tree => by cases tree <;> rfl
  erase_inorder := fun p tree => tree_of_inorder (tree.inorder.erase p)

def twoTables (host : Nat → HostReply) : ImageFile := ⟨⟨fun _ => 0xff, 1024, false⟩, 0, host⟩

theorem two_tables_cached :
    ∃ results q, replies (answer smallTrees) (opened 6 (twoTables fun _ => .moves 300))
        [⟨512, true⟩, ⟨0, true⟩, ⟨512, true⟩] = .ok (results, q) ∧
      Coherent q.table ∧
      q.table.lruList.map (keyAt q.table) =
        ((recentOffsets [⟨512, true⟩, ⟨0, true⟩, ⟨512, true⟩] results).rtake maxCacheNodes).map
          some ∧
      (∀ call, ∃ after reply, answer smallTrees q call = .ok (after, reply) ∧
        HeadEvicted q after) ∧
      List.Forall₂ (Returns 6 (twoTables fun _ => .moves 300).file)
        [⟨512, true⟩, ⟨0, true⟩, ⟨512, true⟩] results :=
  tables_cached smallTrees 6 (twoTables fun _ => .moves 300) [⟨512, true⟩, ⟨0, true⟩, ⟨512, true⟩]
    (serving_meets smallTrees (fun _ => ⟨300, by decide, rfl⟩) 6 _)

def halfRefused : ImageFile := twoTables fun call => if call = 0 then .moves 256 else .fails

/-- The host moves the first half of a table and refuses the rest: the second half is zero. -/
theorem half_table_returned :
    ∃ after c, answer smallTrees (opened 6 halfRefused) ⟨512, true⟩ = .ok (after, some c) ∧
      c.table 32 ≠ storedTable halfRefused.file (2 ^ 6) 512 32 := by
  have evaluated : (answer smallTrees (opened 6 halfRefused) ⟨512, true⟩).toOption.map
      (fun result => result.2.map fun c => c.table 32) = some (some 0) := by
    decide +kernel
  cases answers : answer smallTrees (opened 6 halfRefused) ⟨512, true⟩ with
  | error fault =>
      rw [answers] at evaluated
      cases evaluated
  | ok result =>
      obtain ⟨after, reply⟩ := result
      rw [answers] at evaluated
      cases reply with
      | none => cases evaluated
      | some c =>
          have zero : c.table 32 = 0 := Option.some.inj (Option.some.inj evaluated)
          refine ⟨after, c, rfl, ?_⟩
          rw [zero]
          decide +kernel

end VirtioDisk.TableCache
