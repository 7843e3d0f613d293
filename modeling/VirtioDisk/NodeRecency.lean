import VirtioDisk.LruCache
import VirtioDisk.NodeCache

/-!
What the nodes of a cache in memory are worth: the list of them by their last use.
Searches and links do to this list what a bounded cache that is nothing but the list
does.
-/

namespace VirtioDisk.NodeRecency

open NodeCache

section Nodes
variable {Node : Type} {key : Node → Nat} {capacity p wanted : Nat} {node : Node}
  {c after : Cache Node}

def nodes (c : Cache Node) : List Node := c.lru.filterMap c.cells

theorem mem_nodes (sound : Sound key capacity c) (there : c.cells p = some node) :
    p ∈ c.tree → node ∈ nodes c := by
  intro linked
  exact List.mem_filterMap.mpr ⟨p, sound.same.mem_iff.mp linked, there⟩

theorem of_mem_nodes (sound : Sound key capacity c) (member : node ∈ nodes c) :
    ∃ p ∈ c.tree, c.cells p = some node := by
  obtain ⟨p, linked, there⟩ := List.mem_filterMap.mp member
  exact ⟨p, sound.same.mem_iff.mpr linked, there⟩

theorem nodes_length (sound : Sound key capacity c) : (nodes c).length = c.nrCached := by
  rw [sound.counted, nodes, List.length_filterMap_eq_countP, List.countP_eq_length]
  intro p linked
  obtain ⟨node, there⟩ := sound.live p linked
  rw [there]
  rfl

theorem held_nodes (sound : Sound key capacity c) (wanted : Nat) :
    held key wanted c = LruCache.lookup key wanted (nodes c) := by
  cases looked : LruCache.lookup key wanted (nodes c) with
  | none =>
      rw [held_none]
      cases found : find key wanted c with
      | none => rfl
      | some p =>
          obtain ⟨linked, node, there, same⟩ := find_spec found
          obtain ⟨other, some⟩ := LruCache.lookup_of_mem (mem_nodes sound there linked) same
          rw [looked] at some
          cases some
  | some node =>
      obtain ⟨p, linked, there⟩ := of_mem_nodes sound (LruCache.lookup_mem looked)
      have found := sound.find_linked linked there
      rw [LruCache.lookup_key looked] at found
      exact held_spec found there

/-- A node is taken out of the list where its key is. -/
theorem erase_nodes {list : List Nat} {cells : Nat → Option Node} (there : cells p = some node)
    (live : ∀ q ∈ list, ∃ other, cells q = some other ∧ (key other = key node → q = p)) :
    (list.erase p).filterMap cells =
      (list.filterMap cells).eraseP fun other => key other = key node := by
  induction list with
  | nil => rfl
  | cons q rest ih =>
      obtain ⟨other, here, only⟩ := live q List.mem_cons_self
      by_cases same : q = p
      · subst same
        rw [List.erase_cons_head, List.filterMap_cons_some there]
        simp
      · have different : key other ≠ key node := fun equal => same (only equal)
        have later := ih fun r member => live r (List.mem_cons_of_mem q member)
        rw [List.erase_cons_tail (by simpa using same), List.filterMap_cons_some here,
          List.filterMap_cons_some here, later]
        simp [different]

/-- A search is a lookup, and a hit a use. -/
theorem search_nodes (sound : Sound key capacity c) (wanted : Nat) :
    ∃ after, search key wanted c = some (find key wanted c, after) ∧
      nodes after = LruCache.touch key wanted (nodes c) := by
  have looked := held_nodes sound wanted
  rw [search, if_neg sound.intact, LruCache.touch, ← looked, held]
  cases found : find key wanted c with
  | none => exact ⟨c, rfl, rfl⟩
  | some p =>
      obtain ⟨linked, node, there, same⟩ := find_spec found
      refine ⟨_, rfl, ?_⟩
      have erased := erase_nodes there fun q (member : q ∈ c.lru) => by
        obtain ⟨other, here⟩ := sound.live q member
        exact ⟨other, here, sound.alike (sound.same.mem_iff.mpr member) linked here there⟩
      rw [Option.bind_some, there]
      show (c.lru.erase p ++ [p]).filterMap c.cells = _
      rw [List.filterMap_append, erased, same, List.filterMap_cons_some there, List.filterMap_nil]
      rfl

theorem search_keeps {found : Option Nat} (searched : search key wanted c = some (found, after))
    (member : p ∈ c.lru) : p ∈ after.lru := by
  unfold search at searched
  split at searched
  · cases searched
  · split at searched
    · cases searched
      exact member
    · next q _ =>
        cases searched
        by_cases same : p = q
        · rw [same]
          exact List.mem_append_right _ (List.mem_singleton_self q)
        · exact List.mem_append_left _ ((List.mem_erase_of_ne same).mpr member)

theorem link_lru (linked : link key capacity p c = some after) :
    after.lru = (if c.nrCached = capacity then c.lru.tail else c.lru) ++ [p] := by
  rw [link] at linked
  obtain ⟨room, makes, linked⟩ := Option.bind_eq_some_iff.mp linked
  have list : room.lru = if c.nrCached = capacity then c.lru.tail else c.lru := by
    split at makes
    · next full =>
        rw [if_pos full]
        unfold evict at makes
        split at makes
        · cases makes
        · next head rest list =>
            split at makes
            · cases makes
              rw [list]
              rfl
            · cases makes
    · next room =>
        rw [if_neg room]
        cases makes
        rfl
  split at linked
  · cases linked
  · split at linked
    · cases linked
    · cases linked
      show room.lru ++ [p] = _
      rw [list]

/-- Only the head makes room, and only where there is none. -/
theorem link_leaves {q : Nat} (linked : link key capacity p c = some after) (member : q ∈ c.lru)
    (gone : q ∉ after.lru) : Leaves capacity c q := by
  rw [link_lru linked] at gone
  have out := fun kept => gone (List.mem_append_left [p] kept)
  split at out
  · next full =>
      cases list : c.lru with
      | nil =>
          rw [list] at member
          cases member
      | cons head rest =>
          rw [list] at member out
          rcases List.mem_cons.mp member with same | kept
          · exact ⟨full, by rw [list, same]; rfl⟩
          · exact absurd kept out
  · exact absurd member out

theorem nodes_malloc (sound : Sound key capacity c) (node : Node) :
    nodes (malloc node c) = nodes c := by
  apply List.filterMap_congr
  intro p member
  obtain ⟨other, there⟩ := sound.live p member
  exact if_neg (Nat.ne_of_lt (sound.below there))

theorem nodes_free (unlinked : p ∉ c.lru) : nodes (free p c) = nodes c := by
  apply List.filterMap_congr
  intro q member
  exact if_neg fun (same : q = p) => unlinked (same ▸ member)

/-- A link is an insertion. -/
theorem link_nodes (sound : Sound key capacity c) (positive : 0 < capacity)
    (there : c.cells p = some node) (unlinked : p ∉ c.lru)
    (missing : find key (key node) c = none) :
    ∃ after, link key capacity p c = some after ∧ Sound key capacity after ∧
      after.cells p = some node ∧ nodes after = LruCache.insert capacity node (nodes c) := by
  obtain ⟨after, links, still, linked⟩ := link_sound sound positive there unlinked missing
  have kept : ¬ Leaves capacity c p := fun leaves => unlinked (List.mem_of_head? leaves.2)
  refine ⟨after, links, still, (linked.stays p kept).trans there, ?_⟩
  have list := link_lru links
  have stays (q : Nat) (member : q ∈ after.lru) : after.cells q = c.cells q := by
    apply linked.stays
    intro leaves
    obtain ⟨other, alive⟩ := still.live q member
    rw [linked.leaves q leaves] at alive
    cases alive
  have cells : nodes after = after.lru.filterMap c.cells := List.filterMap_congr stays
  rw [cells, list, List.filterMap_append, List.filterMap_cons_some there, List.filterMap_nil,
    LruCache.insert, nodes_length sound]
  congr 1
  split
  · cases whole : c.lru with
    | nil => simp [nodes, whole]
    | cons head rest =>
        obtain ⟨first, here⟩ := sound.live head (by rw [whole]; exact List.mem_cons_self)
        rw [nodes, whole, List.filterMap_cons_some here]
        rfl
  · rfl

end Nodes

end VirtioDisk.NodeRecency
