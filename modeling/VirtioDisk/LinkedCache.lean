import VirtioDisk.ListLinks
import VirtioDisk.NodeRecency
import VirtioDisk.RbUnlinking

/-!
A cache of disk/qcow.c as the pointers of its nodes: an allocated node has an entry, an
rb_node and a list_head, the cache a root, `lru_list` and `nr_cached`. The tables of
level 2 and the blocks of refcounts are cached by the same code. The loops over the tree
have a bound on their turns.
-/

namespace VirtioDisk.LinkedCache

open ListLinks NodeCache SearchTree SearchTree.RbTree SearchTree.RedBlackTree

/-- The list_heads of a cache. -/
inductive Link where
  | lruList
  | entry (p : Nat)
  deriving DecidableEq

structure Heap (Node : Type) where
  cells : Nat → Option Node
  next : Nat
  nodes : Memory Nat
  links : ListLinks.Lists Link
  nrCached : Nat

/-- Before the first node, with an initialised `lru_list`. -/
def emptyHeap {Node : Type} : Heap Node where
  cells := fun _ => none
  next := 0
  nodes := ⟨fun _ => none, none⟩
  links := fun q => if q = .lruList then some ⟨some .lruList, some .lruList⟩ else none
  nrCached := 0

section Operations
variable {Node : Type} (key : Node → Nat) (turns : Nat) (h : Heap Node)

def lookupLoop (wanted : Nat) : Nat → Option Nat → Option (Option Nat)
  | _, none => some none
  | 0, some _ => none
  | turns + 1, some t => do
      let node ← h.cells t
      let link ← h.nodes.deref (some t)
      if wanted < key node then lookupLoop wanted turns link.left
      else if key node < wanted then lookupLoop wanted turns link.right
      else some (some t)

def lookup (wanted : Nat) : Option (Option Nat) := lookupLoop key h wanted turns h.nodes.root

/-- Where a new node is to be linked, unless the key is there: the parent and the pointer
in it, or the root without a parent. -/
def slotLoop (wanted : Nat) :
    Nat → Option Nat → Side → Option Nat → Option (Option (Option Nat × Side))
  | _, parent, slot, none => some (some (parent, slot))
  | 0, _, _, some _ => none
  | turns + 1, _, _, some t => do
      let node ← h.cells t
      let link ← h.nodes.deref (some t)
      if wanted < key node then slotLoop wanted turns (some t) .left link.left
      else if key node < wanted then slotLoop wanted turns (some t) .right link.right
      else some none

def insert (p : Nat) : Option (Heap Node) := do
  let node ← h.cells p
  let slot ← slotLoop key h (key node) turns none .left h.nodes.root
  match slot with
  | none => some h
  | some (parent, slot) =>
      let nodes ← rbLinkNode h.nodes (some p) parent slot
      let nodes ← rbInsertColor nodes turns (some p)
      some { h with nodes := nodes }

def freeNode (p : Nat) : Option (Heap Node) :=
  if (h.cells p).isSome then
    some { h with
      cells := fun q => if q = p then none else h.cells q
      nodes := { h.nodes with node := fun q => if q = p then none else h.nodes.node q }
      links := fun q => if q = .entry p then none else h.links q }
  else none

/-- The allocator leaves `left` and `right` in the rb_node, zeros for calloc. -/
def newNode (node : Node) (left right : Option Nat) : Option (Nat × Heap Node) := do
  let p := h.next
  -- RB_CLEAR_NODE and INIT_LIST_HEAD
  let links ← initListHead
    (fun q => if q = .entry p then some ⟨none, none⟩ else h.links q) (some (.entry p))
  some (p, { h with
    cells := fun q => if q = p then some node else h.cells q
    next := p + 1
    nodes := h.nodes.put p ⟨some p, .red, right, left⟩
    links := links })

/-- The node of a list_head; that of `lru_list` is in no node. -/
def listEntry : Option Link → Option Nat
  | some (.entry p) => some p
  | _ => none

def evictLru : Option (Heap Node) := do
  let lru ← listEntry (← listFirst h.links (some .lruList))
  let nodes ← rbErase h.nodes turns (some lru)
  let links ← listDelInit h.links (some (.entry lru))
  freeNode { h with nodes := nodes, links := links, nrCached := h.nrCached - 1 } lru

def cache (capacity p : Nat) : Option (Heap Node) := do
  let h ← if h.nrCached = capacity then evictLru turns h else some h
  let h ← insert key turns h p
  let links ← listAddTail h.links (some (.entry p)) (some .lruList)
  some { h with links := links, nrCached := h.nrCached + 1 }

def search (wanted : Nat) : Option (Option Nat × Heap Node) := do
  let found ← lookup key turns h wanted
  match found with
  | none => some (none, h)
  | some p =>
      let links ← listMoveTail h.links (some (.entry p)) (some .lruList)
      some (some p, { h with links := links })

/-- `list_for_each_safe` from `pos`: the next node is read before this one is freed. -/
def freeLoop : Nat → Heap Node → Option Link → Option (Heap Node)
  | 0, _, _ => none
  | entries + 1, h, pos => do
      let n := (← h.links.deref pos).next
      if pos = some .lruList then some h
      else do
        let t ← listEntry pos
        let links ← listDel h.links pos
        let nodes ← rbErase h.nodes turns (some t)
        let h ← freeNode { h with nodes := nodes, links := links } t
        freeLoop entries h n

def freeCache (entries : Nat) : Option (Heap Node) := do
  let pos ← listFirst h.links (some .lruList)
  freeLoop turns entries h pos

end Operations

/-! The pointers stand for a cache whose tree and list are sequences. -/

structure Stands {Node : Type} (h : Heap Node) (c : Cache Node) : Prop where
  cells : h.cells = c.cells
  next : h.next = c.next
  counted : h.nrCached = c.nrCached
  tree : ∃ tree, Zipped h.nodes [] tree ∧ Balanced tree ∧ tree.inorder = c.tree
  list : Ring h.links .lruList (c.lru.map .entry)
  nodes : ∀ p, (h.nodes.node p).isSome = (c.cells p).isSome
  heads : ∀ p, (h.links (.entry p)).isSome = (c.cells p).isSome

section Loops
variable {Node : Type} {key : Node → Nat} {h : Heap Node} {wanted p turns : Nat}
  {tree : SearchTree.Tree Nat}

def keyOf (key : Node → Nat) (cells : Nat → Option Node) (p : Nat) : Option Nat :=
  (cells p).map key

theorem lookupLoop_spec {parent : Option Nat} (holds : Holds h.nodes parent tree)
    (enough : depth tree ≤ turns) :
    lookupLoop key h wanted turns tree.top = SearchTree.lookup (keyOf key h.cells) wanted tree := by
  induction tree generalizing parent turns with
  | leaf => rw [SearchTree.Tree.top_leaf, lookupLoop, SearchTree.lookup]
  | node colour left t right inLeft inRight =>
      rw [depth] at enough
      obtain ⟨less, rfl⟩ : ∃ less, turns = less + 1 := ⟨turns - 1, by omega⟩
      obtain ⟨here, one, two⟩ := holds
      have link : h.nodes.deref (some t) = some ⟨parent, colour, right.top, left.top⟩ := here
      rw [SearchTree.Tree.top_node]
      simp only [lookupLoop, SearchTree.lookup, keyOf, link, bind]
      cases there : h.cells t with
      | none => rfl
      | some node =>
          have first := inLeft one (show _ ≤ less by omega)
          have second := inRight two (show _ ≤ less by omega)
          simp only [Option.bind_some, Option.map_some, first, second]

/-- The walk ends at the hole where the tree takes the new node. -/
theorem slotLoop_spec {path : List (Frame Nat)} {linked : SearchTree.Tree Nat}
    (zipped : Zipped h.nodes path tree) (enough : depth tree ≤ turns)
    (links : SearchTree.link (keyOf key h.cells) wanted p tree = some (some linked)) :
    ∃ way, slotLoop key h wanted turns (parentOf path) (linkOf path) tree.top =
        some (some (parentOf way, linkOf way)) ∧
      plug way .leaf = plug path tree ∧
      plug way (.node .red .leaf p .leaf) = plug path linked := by
  -- On the tree below the slot; what the walk leaves behind goes to the path.
  induction tree generalizing path turns linked with
  | leaf =>
      cases links
      exact ⟨path, by rw [SearchTree.Tree.top_leaf, slotLoop], rfl, rfl⟩
  | node colour left t right inLeft inRight =>
      rw [depth] at enough
      obtain ⟨less, rfl⟩ : ∃ less, turns = less + 1 := ⟨turns - 1, by omega⟩
      have link : h.nodes.deref (some t) = some ⟨parentOf path, colour, right.top, left.top⟩ :=
        zipped.below.1
      simp only [SearchTree.link, keyOf] at links
      rw [SearchTree.Tree.top_node]
      simp only [slotLoop, link, bind]
      cases there : h.cells t with
      | none =>
          rw [there] at links
          cases links
      | some node =>
          rw [there] at links
          simp only [Option.map_some] at links
          simp only [Option.bind_some]
          by_cases less : wanted < key node
          · rw [if_pos less] at links ⊢
            obtain ⟨lower, is, same⟩ := Option.map_eq_some_iff.mp links
            obtain ⟨deeper, rfl, rfl⟩ := Option.map_eq_some_iff.mp same
            exact inLeft ((@zipped_cons _ _ ⟨.left, colour, t, right⟩ _ _).mp zipped) (by omega) is
          · rw [if_neg less] at links ⊢
            by_cases more : key node < wanted
            · rw [if_pos more] at links ⊢
              obtain ⟨lower, is, same⟩ := Option.map_eq_some_iff.mp links
              obtain ⟨deeper, rfl, rfl⟩ := Option.map_eq_some_iff.mp same
              exact inRight ((@zipped_cons _ _ ⟨.right, colour, t, left⟩ _ _).mp zipped)
                (by omega) is
            · rw [if_neg more] at links
              cases links

end Loops

section Sequences
variable {Node : Type} {key : Node → Nat} {capacity wanted p turns : Nat} {node : Node}
  {h : Heap Node} {c : Cache Node}

theorem sound_ordered (sound : Sound key capacity c) : Ordered (keyOf key c.cells) c.tree := by
  constructor
  · intro p member
    obtain ⟨node, there⟩ := sound.tree_live member
    exact ⟨key node, by rw [keyOf, there]; rfl⟩
  · refine sound.ordered.imp ?_
    intro p q apart one two here there
    obtain ⟨first, atFirst, rfl⟩ := Option.map_eq_some_iff.mp here
    obtain ⟨second, atSecond, rfl⟩ := Option.map_eq_some_iff.mp there
    exact apart first second atFirst atSecond

theorem place_parts (c : Cache Node) (wanted p : Nat) (nodes : List Nat) :
    place key c wanted p nodes =
      nodes.takeWhile (below (keyOf key c.cells) wanted) ++
        p :: nodes.dropWhile (below (keyOf key c.cells) wanted) := by
  induction nodes with
  | nil => rfl
  | cons q rest ih =>
      have same : NodeCache.before key c wanted q = below (keyOf key c.cells) wanted q := by
        rw [NodeCache.before, below, keyOf]
        cases c.cells q <;> rfl
      rw [place, same]
      by_cases first : below (keyOf key c.cells) wanted q
      · rw [if_pos first, ih, List.takeWhile_cons_of_pos first, List.dropWhile_cons_of_pos first]
        rfl
      · rw [if_neg first, List.takeWhile_cons_of_neg first, List.dropWhile_cons_of_neg first]
        rfl

/-- No loop over the tree of a cache takes more turns. -/
def maxTurns (capacity : Nat) : Nat := 2 * Nat.log 2 (capacity + 1)

theorem shallow {tree : SearchTree.Tree Nat} (sound : Sound key capacity c)
    (balanced : Balanced tree) (order : tree.inorder = c.tree) :
    depth tree ≤ maxTurns capacity := by
  refine (balanced_depth balanced).trans (Nat.mul_le_mul_left 2 (Nat.log_mono_right ?_))
  rw [order, sound.same.length_eq]
  exact Nat.succ_le_succ sound.bounded

theorem lookup_stands (stands : Stands h c) (sound : Sound key capacity c)
    (enough : maxTurns capacity < turns) :
    lookup key turns h wanted = some (find key wanted c) := by
  obtain ⟨tree, zipped, balanced, order⟩ := stands.tree
  have root : h.nodes.root = tree.top := zipped.way
  have ordered := sound_ordered sound
  rw [← order] at ordered
  rw [lookup, root, lookupLoop_spec zipped.below ((shallow sound balanced order).trans enough.le),
    stands.cells, lookup_find tree ordered, order]
  rfl

theorem search_stands (stands : Stands h c) (sound : Sound key capacity c)
    (enough : maxTurns capacity < turns) (wanted : Nat) :
    ∃ after cache, LinkedCache.search key turns h wanted = some (find key wanted c, after) ∧
      NodeCache.search key wanted c = some (find key wanted c, cache) ∧ Stands after cache := by
  rw [LinkedCache.search, lookup_stands stands sound enough, NodeCache.search, if_neg sound.intact]
  cases found : find key wanted c with
  | none => exact ⟨h, c, rfl, rfl, stands⟩
  | some p =>
      have member : p ∈ c.lru := sound.same.mem_iff.mp (find_spec found).1
      -- From now on the node is the most recently used one.
      obtain ⟨links, moves, ring, there, _⟩ :=
        listMoveTail_spec stands.list (List.mem_map_of_mem (f := Link.entry) member)
      refine ⟨{ h with links := links }, { c with lru := c.lru.erase p ++ [p] }, ?_, rfl,
        stands.cells, stands.next, stands.counted, stands.tree, ?_, stands.nodes,
        fun q => (there _).trans (stands.heads q)⟩
      · simp only [bind, Option.bind_some, moves]
      · rw [List.map_append, List.map_erase fun _ _ => Link.entry.inj]
        exact ring

theorem present_kept {m after : Memory Nat} (list : List Nat)
    (known : ∀ q ∈ list, (m.node q).isSome) (now : ∀ q ∈ list, (after.node q).isSome)
    (frame : ∀ q ∉ list, after.node q = m.node q) (q : Nat) :
    (after.node q).isSome = (m.node q).isSome := by
  by_cases inside : q ∈ list
  · rw [known q inside, now q inside]
  · rw [frame q inside]

theorem insert_stands (stands : Stands h c) (sound : Sound key capacity c)
    (there : c.cells p = some node) (unlinked : p ∉ c.lru)
    (missing : find key (key node) c = none) (enough : maxTurns capacity < turns) :
    ∃ after, LinkedCache.insert key turns h p = some after ∧
      Stands after { c with tree := NodeCache.insert key p (key node) c } := by
  obtain ⟨tree, zipped, balanced, order⟩ := stands.tree
  have root : h.nodes.root = tree.top := zipped.way
  have low := shallow sound balanced order
  have fresh : p ∉ tree.inorder := by
    rw [order, sound.same.mem_iff]
    exact unlinked
  have ordered := sound_ordered sound
  rw [← order, ← stands.cells] at ordered
  have absent : ∀ q ∈ tree.inorder, keyOf key h.cells q ≠ some (key node) := by
    intro q member same
    rw [order] at member
    rw [stands.cells] at same
    obtain ⟨other, here, equal⟩ := Option.map_eq_some_iff.mp same
    exact find_none missing member here equal
  obtain ⟨linked, links, sequence⟩ := link_inorder tree p ordered absent
  -- The walk and the search tree agree on the hole; the rest is rb_insert_color.
  obtain ⟨way, walks, hole, filled⟩ := slotLoop_spec zipped (low.trans enough.le) links
  have open' : Zipped h.nodes way .leaf := zipped_plug.mp (by
    rw [hole]
    exact zipped)
  have deep := depth_plug way (.leaf : SearchTree.Tree Nat)
  rw [hole, plug, depth] at deep
  have present : ∃ n, h.nodes.node p = some n :=
    Option.isSome_iff_exists.mp ((stands.nodes p).trans (by rw [there]; rfl))
  obtain ⟨n, present⟩ := present
  rw [plug] at hole
  obtain ⟨first, after, larger, linking, inserts, final, whole, _, sorted, frame⟩ :=
    inserted_balanced open' (by rwa [hole]) (by rwa [hole]) present (show _ < turns by omega)
  have result : larger.inorder = NodeCache.insert key p (key node) c := by
    have spread := congrArg SearchTree.Tree.inorder filled
    rw [plug_inorder, plug, sequence, order, stands.cells] at spread
    rw [sorted, NodeCache.insert, missing]
    dsimp only
    rw [place_parts, ← spread]
    simp [SearchTree.Tree.inorder]
  have perm : larger.inorder.Perm (p :: tree.inorder) := by
    rw [result, NodeCache.insert, missing, order]
    exact place_perm c (key node) p c.tree
  refine ⟨{ h with nodes := after }, ?_, stands.cells, stands.next, stands.counted,
    ⟨larger, final, whole, result⟩, stands.list, fun q => ?_, stands.heads⟩
  · have cell : h.cells p = some node := by
      rw [stands.cells]
      exact there
    have walked : slotLoop key h (key node) turns none .left h.nodes.root =
        some (some (parentOf way, linkOf way)) := by
      rw [root]
      exact walks
    simp only [LinkedCache.insert, cell, bind, Option.bind_some, walked, linking, inserts]
  · refine Eq.trans (present_kept (p :: tree.inorder) (fun r member => ?_)
      (fun r member => ?_) (fun r away => ?_) q) (stands.nodes q)
    · rcases List.mem_cons.mp member with rfl | inside
      · rw [present]
        rfl
      · exact zipped.below.present inside
    · exact final.below.present (perm.mem_iff.mpr member)
    · rw [List.mem_cons, not_or] at away
      exact frame r away.1 (by rw [hole]; exact away.2)

theorem freeNode_stands (stands : Stands h c) (there : (c.cells p).isSome) (unlinked : p ∉ c.lru)
    (loose : p ∉ c.tree) :
    ∃ after, freeNode h p = some after ∧ Stands after (NodeCache.free p c) := by
  obtain ⟨tree, zipped, balanced, order⟩ := stands.tree
  have cell : (h.cells p).isSome := by rwa [stands.cells]
  refine ⟨_, if_pos cell, ?_, stands.next, stands.counted, ⟨tree, ⟨zipped.way,
    zipped.below.frame fun q member => if_neg ?_, zipped.once⟩, balanced, order⟩,
    stands.list.frame fun q member => if_neg ?_, fun q => ?_, fun q => ?_⟩
  · funext q
    rw [stands.cells]
    rfl
  · rintro rfl
    exact loose (order ▸ member)
  · rintro rfl
    rcases List.mem_cons.mp member with same | inside
    · cases same
    · obtain ⟨r, listed, same⟩ := List.mem_map.mp inside
      cases same
      exact unlinked listed
  · show (if q = p then none else h.nodes.node q).isSome =
      (if q = p then none else c.cells q).isSome
    split
    · rfl
    · exact stands.nodes q
  · show (if Link.entry q = .entry p then none else h.links (.entry q)).isSome =
      (if q = p then none else c.cells q).isSome
    by_cases same : q = p
    · rw [if_pos same, if_pos (congrArg Link.entry same)]
      rfl
    · rw [if_neg same, if_neg fun equal => same (Link.entry.inj equal)]
      exact stands.heads q

theorem fresh_unlinked (sound : Sound key capacity c) : c.next ∉ c.lru := by
  intro member
  obtain ⟨old, there⟩ := sound.live _ member
  exact absurd (sound.below there) (Nat.lt_irrefl _)

theorem newNode_stands (stands : Stands h c) (sound : Sound key capacity c) (node : Node)
    (left right : Option Nat) :
    ∃ after, newNode h node left right = some (c.next, after) ∧ Stands after (malloc node c) := by
  obtain ⟨tree, zipped, balanced, order⟩ := stands.tree
  have unlinked := fresh_unlinked sound
  have loose : c.next ∉ tree.inorder := by
    rw [order, sound.same.mem_iff]
    exact unlinked
  -- The list_head of the node as the allocation leaves it.
  let before : ListLinks.Lists Link := fun q =>
    if q = .entry h.next then some ⟨none, none⟩ else h.links q
  have present : (before (.entry h.next)).isSome := by simp [before]
  have older {q : Link} (other : q ≠ .entry h.next) : before q = h.links q := if_neg other
  obtain ⟨links, inits, _, there, frame⟩ := initListHead_spec present
  refine ⟨{ h with
      cells := fun q => if q = h.next then some node else h.cells q
      next := h.next + 1
      nodes := h.nodes.put h.next ⟨some h.next, .red, right, left⟩
      links := links }, ?_, ?_, congrArg (· + 1) stands.next, stands.counted,
    ⟨tree, ⟨zipped.way, zipped.below.frame fun q member => ?_, zipped.once⟩, balanced, order⟩,
    stands.list.frame fun q member => ?_, fun q => ?_, fun q => ?_⟩
  · have init : initListHead (fun q => if q = .entry h.next then some ⟨none, none⟩ else h.links q)
        (some (.entry h.next)) = some links := inits
    rw [newNode, ← stands.next]
    simp only [bind, init, Option.bind_some]
  · funext q
    show (if q = h.next then some node else h.cells q) = if q = c.next then some node else c.cells q
    rw [stands.next, stands.cells]
  · refine RbTree.put_away member ?_
    rw [stands.next]
    exact loose
  · have other : q ≠ .entry h.next := by
      rintro rfl
      rcases List.mem_cons.mp member with same | inside
      · cases same
      · obtain ⟨r, listed, same⟩ := List.mem_map.mp inside
        cases same
        exact unlinked (stands.next ▸ listed)
    exact (frame q other).trans (older other)
  · show ((h.nodes.put h.next _).node q).isSome =
      (if q = c.next then some node else c.cells q).isSome
    rw [← stands.next]
    by_cases same : q = h.next
    · rw [same, RbTree.put_same, if_pos rfl]
      rfl
    · rw [RbTree.put_other same, if_neg same]
      exact stands.nodes q
  · show (links (.entry q)).isSome = (if q = c.next then some node else c.cells q).isSome
    rw [there, ← stands.next]
    by_cases same : q = h.next
    · rw [same, if_pos rfl]
      exact present
    · rw [older fun equal => same (Link.entry.inj equal), if_neg same]
      exact stands.heads q

/-- A node is taken out of the tree and of the list. -/
theorem unlinked_stands {tree : SearchTree.Tree Nat} {rest : List Nat}
    {links : ListLinks.Lists Link} {nodes : Memory Nat} (count : Nat) (stands : Stands h c)
    (zipped : Zipped h.nodes [] tree) (order : tree.inorder = c.tree)
    (final : Zipped nodes [] (RedBlackTree.erase p tree))
    (balanced : Balanced (RedBlackTree.erase p tree))
    (frame : ∀ q ∉ tree.inorder.erase p, nodes.node q = h.nodes.node q)
    (list : Ring links .lruList (rest.map .entry))
    (there : ∀ q, (links q).isSome = (h.links q).isSome) :
    Stands { h with nodes := nodes, links := links, nrCached := count }
      { c with tree := c.tree.erase p, lru := rest, nrCached := count } := by
  have erased := @erase_inorder _ _ p tree
  refine ⟨stands.cells, stands.next, rfl, ⟨_, final, balanced, erased.trans (by rw [order])⟩, list,
    fun q => ?_, fun q => (there _).trans (stands.heads q)⟩
  refine Eq.trans (present_kept (tree.inorder.erase p) (fun r member => ?_)
    (fun r member => ?_) frame q) (stands.nodes q)
  · exact zipped.below.present (List.mem_of_mem_erase member)
  · refine final.below.present ?_
    rw [erased]
    exact member

theorem evict_stands (stands : Stands h c) (sound : Sound key capacity c)
    (full : c.nrCached = capacity) (positive : 0 < capacity) (enough : maxTurns capacity < turns) :
    ∃ after cache, evictLru turns h = some after ∧ evict c = some cache ∧ Stands after cache := by
  obtain ⟨tree, zipped, balanced, order⟩ := stands.tree
  have low := shallow sound balanced order
  obtain ⟨p, cache, evicts, evicted, _⟩ := evict_sound sound full positive
  have list := evicted.lru
  have member : p ∈ c.lru := by
    rw [list]
    exact List.mem_cons_self
  have linked : p ∈ c.tree := sound.same.mem_iff.mpr member
  obtain ⟨node, there⟩ := sound.live p member
  -- The first entry of `lru_list` is the node that was used least recently.
  have head := listFirst_spec stands.list
  rw [list, List.map_cons, List.head?_cons] at head
  obtain ⟨nodes, erases, final, whole, _, frame⟩ :=
    erased_balanced zipped balanced (order ▸ linked) (low.trans enough.le)
  obtain ⟨links, deletes, ring, kept, _⟩ :=
    listDelInit_spec stands.list (List.mem_map_of_mem (f := Link.entry) member)
  rw [← List.map_erase fun _ _ => Link.entry.inj, list, List.erase_cons_head] at ring
  have once := sound.once
  rw [list, List.nodup_cons] at once
  have smaller := unlinked_stands (c.nrCached - 1) stands zipped order final whole frame ring
    kept
  obtain ⟨after, frees, still⟩ := freeNode_stands smaller
    (show (c.cells p).isSome by rw [there]; rfl) once.1 sound.tree_once.not_mem_erase
  refine ⟨after, cache, ?_, evicts, ?_⟩
  · have entry : listEntry (some (Link.entry p)) = some p := rfl
    simp only [evictLru, bind, head, Option.bind_some, Option.getD_some, entry, erases, deletes,
      stands.counted]
    exact frees
  · rw [evict, list] at evicts
    dsimp only at evicts
    rw [if_pos ⟨linked, by rw [there]; rfl⟩] at evicts
    exact Option.some.inj evicts ▸ still

theorem added_stands (stands : Stands h c) (sound : Sound key capacity c)
    (there : c.cells p = some node) (unlinked : p ∉ c.lru)
    (missing : find key (key node) c = none) (enough : maxTurns capacity < turns) :
    ∃ first links, LinkedCache.insert key turns h p = some first ∧
      listAddTail first.links (some (.entry p)) (some .lruList) = some links ∧
      Stands { first with links := links, nrCached := first.nrCached + 1 } { c with
        tree := NodeCache.insert key p (key node) c
        lru := c.lru ++ [p]
        nrCached := c.nrCached + 1 } := by
  obtain ⟨first, inserts, filled⟩ := insert_stands stands sound there unlinked missing enough
  have fresh : Link.entry p ∉ Link.lruList :: c.lru.map Link.entry := by
    intro member
    rcases List.mem_cons.mp member with same | inside
    · cases same
    · obtain ⟨q, listed, same⟩ := List.mem_map.mp inside
      cases same
      exact unlinked listed
  have head : (first.links (.entry p)).isSome := by
    rw [filled.heads, there]
    rfl
  obtain ⟨links, adds, ring, kept, _⟩ := listAddTail_spec filled.list fresh head
  refine ⟨first, links, inserts, adds, filled.cells, filled.next,
    congrArg (· + 1) filled.counted, filled.tree, ?_, filled.nodes,
    fun q => (kept _).trans (filled.heads q)⟩
  rw [List.map_append]
  exact ring

/-- `cache_table` and `cache_refcount_block` on the pointers. -/
theorem cache_stands (stands : Stands h c) (sound : Sound key capacity c) (positive : 0 < capacity)
    (there : c.cells p = some node) (unlinked : p ∉ c.lru)
    (missing : find key (key node) c = none) (enough : maxTurns capacity < turns) :
    ∃ after linked, LinkedCache.cache key turns h capacity p = some after ∧
      NodeCache.link key capacity p c = some linked ∧ Stands after linked := by
  rw [LinkedCache.cache, NodeCache.link, stands.counted]
  by_cases full : c.nrCached = capacity
  · obtain ⟨q, room, evicts, evicted, still, less⟩ := evict_sound sound full positive
    obtain ⟨smaller, other, takes, same, stays⟩ := evict_stands stands sound full positive enough
    rw [evicts] at same
    cases same
    rw [evicted.lru] at unlinked
    -- The victim is in the list and `p` is not, so that it is another node.
    have alive : room.cells p = some node := by
      rw [evicted.cells]
      refine (if_neg ?_).trans there
      rintro rfl
      exact unlinked List.mem_cons_self
    obtain ⟨first, links, inserts, adds, final⟩ := added_stands stays still alive
      (fun member => unlinked (List.mem_cons_of_mem _ member)) (evicted.missing missing) enough
    refine ⟨_, _, ?_, ?_, final⟩
    · simp only [if_pos full, takes, bind, Option.bind_some, inserts, adds]
    · simp only [if_pos full, evicts, Option.bind_some, alive, if_neg still.intact]
  · obtain ⟨first, links, inserts, adds, final⟩ :=
      added_stands stands sound there unlinked missing enough
    refine ⟨_, _, ?_, ?_, final⟩
    · simp only [if_neg full, bind, Option.bind_some, inserts, adds]
    · simp only [if_neg full, Option.bind_some, there, if_neg sound.intact]

/-- Every node is freed; `nr_cached` stays. -/
def freed (c : Cache Node) : Cache Node :=
  { c with cells := fun q => if q ∈ c.lru then none else c.cells q, tree := [], lru := [] }

theorem freeLoop_spec {list : List Nat} {entries : Nat} (stands : Stands h c)
    (lru : c.lru = list) (same : c.tree.Perm list) (once : list.Nodup)
    (live : ∀ p ∈ list, (c.cells p).isSome) (low : maxTurns list.length ≤ turns)
    (enough : list.length < entries) :
    ∃ after, freeLoop turns entries h (some ((list.map Link.entry).head?.getD .lruList)) =
        some after ∧ Stands after (freed c) := by
  induction list generalizing h c entries with
  | nil =>
      obtain ⟨less, rfl⟩ : ∃ less, entries = less + 1 := ⟨entries - 1, by omega⟩
      have ring := stands.list
      rw [lru] at ring
      obtain ⟨head, here⟩ := Option.isSome_iff_exists.mp (ring.present List.mem_cons_self)
      have read : h.links.deref (some .lruList) = some head := here
      have gone : freed c = { c with tree := [], lru := [] } := by
        rw [freed, lru]
        simp
      refine ⟨h, ?_, ?_⟩
      · simp only [freeLoop, List.map_nil, List.head?_nil, Option.getD_none, read, bind,
          Option.bind_some, if_true]
      · rw [gone]
        refine ⟨stands.cells, stands.next, stands.counted, ?_, ring, stands.nodes, stands.heads⟩
        rw [← List.perm_nil.mp same]
        exact stands.tree
  | cons p rest ih =>
      obtain ⟨less, rfl⟩ : ∃ less, entries = less + 1 := ⟨entries - 1, by omega⟩
      obtain ⟨tree, zipped, balanced, order⟩ := stands.tree
      obtain ⟨away, once⟩ := List.nodup_cons.mp once
      have linked : p ∈ c.tree := same.mem_iff.mpr List.mem_cons_self
      have shallow : depth tree ≤ turns := by
        refine (balanced_depth balanced).trans ?_
        rwa [order, same.length_eq]
      have ring := stands.list
      rw [lru, List.map_cons] at ring
      obtain ⟨head, read, _, next⟩ :=
        deref_prev (ring.present (List.mem_cons_of_mem _ List.mem_cons_self))
      obtain ⟨nodes, erases, final, whole, _, frame⟩ :=
        erased_balanced zipped balanced (order ▸ linked) shallow
      obtain ⟨links, deletes, left, kept, _⟩ := listDel_spec ring List.mem_cons_self
      rw [List.erase_cons_head] at left
      have smaller := unlinked_stands c.nrCached stands zipped order final whole frame left kept
      have single : c.tree.Nodup := same.nodup_iff.mpr (List.nodup_cons.mpr ⟨away, once⟩)
      obtain ⟨after, frees, still⟩ := freeNode_stands smaller
        (live p List.mem_cons_self) away single.not_mem_erase
      have perm : (c.tree.erase p).Perm rest := by
        have both := same.erase p
        rwa [List.erase_cons_head] at both
      have alive : ∀ q ∈ rest, (if q = p then none else c.cells q).isSome := by
        intro q member
        have other : q ≠ p := by
          rintro rfl
          exact away member
        rw [if_neg other]
        exact live q (List.mem_cons_of_mem _ member)
      have lower : maxTurns rest.length ≤ turns :=
        (Nat.mul_le_mul_left 2 (Nat.log_mono_right (by simp))).trans low
      obtain ⟨last, loops, final⟩ :=
        ih still rfl perm once alive lower (Nat.succ_lt_succ_iff.mp enough)
      have gone :
          freed (NodeCache.free p { c with tree := c.tree.erase p, lru := rest }) = freed c := by
        simp only [freed, NodeCache.free, lru]
        congr 1
        funext q
        by_cases equal : q = p <;> simp [equal]
      refine ⟨last, ?_, ?_⟩
      · have other : some (Link.entry p) ≠ some .lruList := by simp
        have entry : listEntry (some (Link.entry p)) = some p := rfl
        simp only [freeLoop, List.map_cons, List.head?_cons, Option.getD_some, read, bind,
          Option.bind_some, if_neg other, entry, deletes, erases]
        rw [stands.counted.symm] at frees
        rw [frees, Option.bind_some, next, ring.second]
        exact loops
      · rw [← gone]
        exact final

/-! The nodes by their last use are all that a program sees of the cache. -/

/-- Every allocated node is linked. -/
def Shows (key : Node → Nat) (capacity : Nat) (h : Heap Node) (list : List Node) : Prop :=
  ∃ c, Stands h c ∧ Sound key capacity c ∧ (∀ p, (c.cells p).isSome → p ∈ c.lru) ∧
    NodeRecency.nodes c = list

variable {list : List Node}

theorem shows_empty : Shows key capacity (emptyHeap : Heap Node) [] := by
  have ring : Ring (emptyHeap : Heap Node).links .lruList [] := by
    refine ⟨List.nodup_singleton _, List.isChain_pair.mpr ⟨?_, ?_⟩⟩
    · rfl
    · rfl
  exact ⟨NodeCache.empty, ⟨rfl, rfl, rfl, ⟨.leaf, ⟨rfl, trivial, .nil⟩, ⟨rfl, 0, rfl⟩, rfl⟩,
    ring, fun _ => rfl, fun _ => rfl⟩, sound_empty, nofun, rfl⟩

theorem Shows.search (shows : Shows key capacity h list) (enough : maxTurns capacity < turns)
    (wanted : Nat) :
    LruCache.lookup key wanted list = none ∧
        LinkedCache.search key turns h wanted = some (none, h) ∨
      ∃ p node after, LruCache.lookup key wanted list = some node ∧
        LinkedCache.search key turns h wanted = some (some p, after) ∧
        after.cells p = some node ∧ Shows key capacity after (LruCache.touch key wanted list) := by
  obtain ⟨c, stands, sound, kept, rfl⟩ := shows
  obtain ⟨after, cache, searches, same, final⟩ := search_stands stands sound enough wanted
  obtain ⟨_, also, still, _, cells, _⟩ := search_sound sound wanted
  obtain ⟨_, again, used⟩ := NodeRecency.search_nodes sound wanted
  rw [same] at also again
  cases also
  cases again
  have looked := NodeRecency.held_nodes sound wanted
  rw [held] at looked
  cases found : find key wanted c with
  | none =>
      left
      rw [found] at looked searches same
      refine ⟨looked.symm, ?_⟩
      rw [LinkedCache.search, lookup_stands stands sound enough, found]
      rfl
  | some p =>
      right
      obtain ⟨_, node, there, _⟩ := find_spec found
      rw [found] at looked searches
      refine ⟨p, node, after, looked.symm.trans there, searches, ?_, cache, final, still, ?_, used⟩
      · rw [final.cells, cells]
        exact there
      · intro q alive
        rw [cells] at alive
        exact NodeRecency.search_keeps same (kept q alive)

theorem Shows.dropped (shows : Shows key capacity h list) (node : Node) (left right : Option Nat) :
    ∃ p more after, newNode h node left right = some (p, more) ∧ freeNode more p = some after ∧
      Shows key capacity after list := by
  obtain ⟨c, stands, sound, kept, rfl⟩ := shows
  obtain ⟨more, allocates, grown⟩ := newNode_stands stands sound node left right
  have fresh : c.next ∉ (malloc node c).lru := fresh_unlinked sound
  have there : ((malloc node c).cells c.next).isSome := by
    rw [malloc_cells]
    rfl
  obtain ⟨after, frees, final⟩ := freeNode_stands grown there fresh fun member =>
    fresh (sound.same.mem_iff.mp member)
  refine ⟨c.next, more, after, allocates, frees, _, final, (sound.malloc node).free fresh, ?_,
    (NodeRecency.nodes_free fresh).trans (NodeRecency.nodes_malloc sound node)⟩
  intro q alive
  change (if q = c.next then none else if q = c.next then some node else c.cells q).isSome at alive
  by_cases same : q = c.next
  · rw [if_pos same] at alive
    cases alive
  · rw [if_neg same, if_neg same] at alive
    exact kept q alive

theorem Shows.loaded (shows : Shows key capacity h list) (positive : 0 < capacity)
    (enough : maxTurns capacity < turns) (node : Node) (left right : Option Nat)
    (missing : LruCache.lookup key (key node) list = none) :
    ∃ p more after, newNode h node left right = some (p, more) ∧
      LinkedCache.cache key turns more capacity p = some after ∧ after.cells p = some node ∧
      Shows key capacity after (LruCache.insert capacity node list) := by
  obtain ⟨c, stands, sound, kept, rfl⟩ := shows
  obtain ⟨more, allocates, grown⟩ := newNode_stands stands sound node left right
  have larger := sound.malloc node
  have fresh : c.next ∉ (malloc node c).lru := fresh_unlinked sound
  have absent : find key (key node) (malloc node c) = none := by
    rw [← held_none, held_malloc sound, NodeRecency.held_nodes sound]
    exact missing
  obtain ⟨after, linked, caches, links, final⟩ :=
    cache_stands grown larger positive (malloc_cells node c) fresh absent enough
  obtain ⟨_, also, still, there, inserted⟩ :=
    NodeRecency.link_nodes larger positive (malloc_cells node c) fresh absent
  obtain ⟨_, again, _, placed⟩ := link_sound larger positive (malloc_cells node c) fresh absent
  rw [links] at also again
  cases also
  cases again
  refine ⟨c.next, more, after, allocates, caches, ?_, linked, final, still, ?_, ?_⟩
  · rw [final.cells]
    exact there
  · intro q alive
    refine (placed.nodes q).mpr ?_
    by_cases leaves : Leaves capacity (malloc node c) q
    · rw [placed.leaves q leaves] at alive
      cases alive
    · rw [placed.stays q leaves] at alive
      by_cases new : q = c.next
      · exact .inl new
      · exact .inr ⟨kept q ((if_neg new : (malloc node c).cells q = c.cells q) ▸ alive), leaves⟩
  · rw [inserted, NodeRecency.nodes_malloc sound]

theorem Shows.closed (shows : Shows key capacity h list) (enough : maxTurns capacity < turns)
    {entries : Nat} (room : capacity < entries) :
    ∃ after, freeCache turns h entries = some after ∧ ∀ p, after.cells p = none := by
  obtain ⟨c, stands, sound, kept, rfl⟩ := shows
  have low : maxTurns c.lru.length ≤ turns :=
    (Nat.mul_le_mul_left 2 (Nat.log_mono_right (Nat.succ_le_succ sound.bounded))).trans enough.le
  have live : ∀ p ∈ c.lru, (c.cells p).isSome := by
    intro p member
    obtain ⟨node, there⟩ := sound.live p member
    rw [there]
    rfl
  obtain ⟨after, loops, final⟩ := freeLoop_spec stands rfl sound.same sound.once
    live low (sound.bounded.trans_lt room)
  refine ⟨after, ?_, fun p => ?_⟩
  · rw [freeCache]
    simp only [bind, listFirst_spec stands.list, Option.bind_some]
    exact loops
  · rw [final.cells]
    show (if p ∈ c.lru then none else c.cells p) = none
    split
    · rfl
    · next away => exact Option.not_isSome_iff_eq_none.mp fun alive => away (kept p alive)

end Sequences

end VirtioDisk.LinkedCache
