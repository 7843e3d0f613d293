import Mathlib.Data.List.Find
import Mathlib.Data.List.Perm.Basic

/-!
A bounded cache of nodes in memory. A search tree finds a node by its key, a list
orders the nodes from the least to the most recently used one, and a counter holds
their number. The tree is the sequence of its nodes in order, which no rebalancing
changes. An address is given out once. `none` is the use of a node that was freed.
-/

namespace VirtioDisk.NodeCache

structure Cache (Node : Type) where
  cells : Nat → Option Node
  next : Nat
  tree : List Nat
  lru : List Nat
  nrCached : Nat

section Operations
variable {Node : Type} (key : Node → Nat)

def empty : Cache Node := ⟨fun _ => none, 0, [], [], 0⟩

def store (p : Nat) (node : Node) (c : Cache Node) : Cache Node :=
  { c with cells := fun q => if q = p then some node else c.cells q }

def malloc (node : Node) (c : Cache Node) : Cache Node :=
  { store c.next node c with next := c.next + 1 }

def free (p : Nat) (c : Cache Node) : Cache Node :=
  { c with cells := fun q => if q = p then none else c.cells q }

def Dangles (c : Cache Node) : Prop := ∃ p ∈ c.tree, (c.cells p).isNone

instance (c : Cache Node) : Decidable (Dangles c) := inferInstanceAs (Decidable (∃ p ∈ c.tree, _))

def find (wanted : Nat) (c : Cache Node) : Option Nat :=
  c.tree.find? fun p => (c.cells p).map key = some wanted

/-- A hit moves its node to the tail of the list. -/
def search (wanted : Nat) (c : Cache Node) : Option (Option Nat × Cache Node) :=
  if Dangles c then none
  else
    match find key wanted c with
    | none => some (none, c)
    | some p => some (some p, { c with lru := c.lru.erase p ++ [p] })

/-- The head of the list is taken out and freed. -/
def evict (c : Cache Node) : Option (Cache Node) :=
  match c.lru with
  | [] => none
  | p :: rest =>
      if p ∈ c.tree ∧ (c.cells p).isSome then
        some (free p { c with tree := c.tree.erase p, lru := rest, nrCached := c.nrCached - 1 })
      else none

def before (c : Cache Node) (wanted p : Nat) : Bool :=
  match c.cells p with
  | none => false
  | some node => decide (key node < wanted)

def place (c : Cache Node) (wanted p : Nat) : List Nat → List Nat
  | [] => [p]
  | q :: rest => if before key c wanted q then q :: place c wanted p rest else p :: q :: rest

-- A key that is there already leaves the tree as it is.
def insert (p wanted : Nat) (c : Cache Node) : List Nat :=
  match find key wanted c with
  | some _ => c.tree
  | none => place key c wanted p c.tree

def link (capacity p : Nat) (c : Cache Node) : Option (Cache Node) :=
  (if c.nrCached = capacity then evict c else some c).bind fun c =>
    match c.cells p with
    | none => none
    | some node =>
        if Dangles c then none
        else
          some { c with
            tree := insert key p (key node) c
            lru := c.lru ++ [p]
            nrCached := c.nrCached + 1 }

/-- The node that makes room for another one. -/
def victim (capacity : Nat) (c : Cache Node) : Option Node :=
  if c.nrCached = capacity then c.lru.head?.bind c.cells else none

/-- The node that is found under a key. -/
def held (wanted : Nat) (c : Cache Node) : Option Node := (find key wanted c).bind c.cells

/-- The tree and the list hold the same allocated nodes, each once. -/
structure Sound (capacity : Nat) (c : Cache Node) : Prop where
  same : c.tree.Perm c.lru
  once : c.lru.Nodup
  live : ∀ p ∈ c.lru, ∃ node, c.cells p = some node
  ordered : c.tree.Pairwise fun p q =>
    ∀ first second, c.cells p = some first → c.cells q = some second → key first < key second
  counted : c.nrCached = c.lru.length
  bounded : c.lru.length ≤ capacity
  beyond : ∀ p, c.next ≤ p → c.cells p = none

end Operations

section Facts
variable {Node : Type} {key : Node → Nat} {capacity p wanted : Nat} {node : Node}
  {c after : Cache Node}

theorem sound_empty : Sound key capacity (empty : Cache Node) :=
  ⟨.refl _, .nil, nofun, .nil, rfl, Nat.zero_le _, fun _ _ => rfl⟩

theorem Sound.tree_once (sound : Sound key capacity c) : c.tree.Nodup :=
  sound.same.nodup_iff.mpr sound.once

theorem Sound.tree_live (sound : Sound key capacity c) (member : p ∈ c.tree) :
    ∃ node, c.cells p = some node :=
  sound.live p (sound.same.mem_iff.mp member)

theorem Sound.intact (sound : Sound key capacity c) : ¬ Dangles c := by
  rintro ⟨p, member, freed⟩
  obtain ⟨node, there⟩ := sound.tree_live member
  rw [there] at freed
  cases freed

theorem Sound.below (sound : Sound key capacity c) (there : c.cells p = some node) :
    p < c.next := by
  by_contra outside
  rw [sound.beyond p (Nat.not_lt.mp outside)] at there
  cases there

theorem find_spec (found : find key wanted c = some p) :
    p ∈ c.tree ∧ ∃ node, c.cells p = some node ∧ key node = wanted := by
  refine ⟨List.mem_of_find?_eq_some found, ?_⟩
  have checked := List.find?_some found
  simpa using checked

theorem find_none (missing : find key wanted c = none) (member : p ∈ c.tree)
    (there : c.cells p = some node) : key node ≠ wanted := by
  have checked := List.find?_eq_none.mp missing p member
  simpa [there] using checked

/-- Two nodes of the tree have different keys. -/
theorem Sound.alike (sound : Sound key capacity c) {q : Nat} {other : Node}
    (first : p ∈ c.tree) (second : q ∈ c.tree) (here : c.cells p = some node)
    (there : c.cells q = some other) (same : key node = key other) : p = q := by
  by_contra different
  have apart := (List.pairwise_iff_getElem.mp sound.ordered)
  obtain ⟨i, early, rfl⟩ := List.getElem_of_mem first
  obtain ⟨j, late, rfl⟩ := List.getElem_of_mem second
  rcases Nat.lt_trichotomy i j with less | equal | more
  · have strict := apart i j early late less _ _ here there
    omega
  · exact different (by simp only [equal])
  · have strict := apart j i late early more _ _ there here
    omega

theorem Sound.find_linked (sound : Sound key capacity c) (member : p ∈ c.tree)
    (there : c.cells p = some node) : find key (key node) c = some p := by
  cases found : find key (key node) c with
  | none => exact absurd rfl (find_none found member there)
  | some q =>
      obtain ⟨linked, other, here, same⟩ := find_spec found
      rw [sound.alike linked member here there same]

theorem held_spec (found : find key wanted c = some p) (there : c.cells p = some node) :
    held key wanted c = some node := by
  rw [held, found]
  exact there

theorem held_key (there : held key wanted c = some node) : key node = wanted := by
  rw [held] at there
  obtain ⟨p, found, here⟩ := Option.bind_eq_some_iff.mp there
  obtain ⟨_, other, same, named⟩ := find_spec found
  rw [same] at here
  cases here
  exact named

/-! Searches. -/

theorem search_sound (sound : Sound key capacity c) (wanted : Nat) :
    ∃ after, search key wanted c = some (find key wanted c, after) ∧
      Sound key capacity after ∧ after.tree = c.tree ∧ after.cells = c.cells ∧
      after.next = c.next := by
  rw [search, if_neg sound.intact]
  cases found : find key wanted c with
  | none => exact ⟨c, rfl, sound, rfl, rfl, rfl⟩
  | some p =>
      have member : p ∈ c.lru := sound.same.mem_iff.mp (find_spec found).1
      have moved : (c.lru.erase p ++ [p]).Perm c.lru :=
        (List.perm_append_singleton p _).trans (List.perm_cons_erase member).symm
      refine ⟨_, rfl, ?_, rfl, rfl, rfl⟩
      constructor
      · exact sound.same.trans moved.symm
      · exact moved.nodup_iff.mpr sound.once
      · exact fun q linked => sound.live q (moved.mem_iff.mp linked)
      · exact sound.ordered
      · exact sound.counted.trans moved.length_eq.symm
      · exact Nat.le_trans (Nat.le_of_eq moved.length_eq) sound.bounded
      · exact sound.beyond

/-! Memory. -/

theorem malloc_cells (node : Node) (c : Cache Node) : (malloc node c).cells c.next = some node :=
  if_pos rfl

theorem Sound.malloc (sound : Sound key capacity c) (node : Node) :
    Sound key capacity (malloc node c) := by
  have kept {q : Nat} {other : Node} (there : c.cells q = some other) :
      (NodeCache.malloc node c).cells q = some other := by
    rw [← there]
    exact if_neg (Nat.ne_of_lt (sound.below there))
  constructor
  · exact sound.same
  · exact sound.once
  · intro q linked
    obtain ⟨other, there⟩ := sound.live q linked
    exact ⟨other, kept there⟩
  · refine sound.ordered.imp_of_mem ?_
    intro q r first second apart one two here there
    obtain ⟨left, atLeft⟩ := sound.tree_live first
    obtain ⟨right, atRight⟩ := sound.tree_live second
    rw [kept atLeft] at here
    rw [kept atRight] at there
    cases here
    cases there
    exact apart _ _ atLeft atRight
  · exact sound.counted
  · exact sound.bounded
  · intro q outside
    change c.next + 1 ≤ q at outside
    have different : q ≠ c.next := by omega
    exact (if_neg different).trans (sound.beyond q (by omega))

theorem Sound.free (sound : Sound key capacity c) (unlinked : p ∉ c.lru) :
    Sound key capacity (free p c) := by
  have kept {q : Nat} (linked : q ∈ c.lru) : (NodeCache.free p c).cells q = c.cells q := by
    apply if_neg
    rintro rfl
    exact unlinked linked
  constructor
  · exact sound.same
  · exact sound.once
  · intro q linked
    rw [kept linked]
    exact sound.live q linked
  · refine sound.ordered.imp_of_mem ?_
    intro q r first second apart
    rw [kept (sound.same.mem_iff.mp first), kept (sound.same.mem_iff.mp second)]
    exact apart
  · exact sound.counted
  · exact sound.bounded
  · intro q outside
    change (if q = p then none else c.cells q) = none
    rw [sound.beyond q outside, ite_self]

/-- A node changes, but not its key. -/
theorem Sound.store (sound : Sound key capacity c) (there : c.cells p = some node) {new : Node}
    (same : key new = key node) : Sound key capacity (store p new c) := by
  have cell {q : Nat} {other : Node} (stored : (NodeCache.store p new c).cells q = some other) :
      ∃ old, c.cells q = some old ∧ key old = key other := by
    change (if q = p then some new else c.cells q) = some other at stored
    split at stored
    · next here =>
        cases stored
        exact ⟨node, here ▸ there, same.symm⟩
    · exact ⟨other, stored, rfl⟩
  constructor
  · exact sound.same
  · exact sound.once
  · intro q linked
    obtain ⟨other, here⟩ := sound.live q linked
    change ∃ node, (if q = p then some new else c.cells q) = some node
    split
    · exact ⟨new, rfl⟩
    · exact ⟨other, here⟩
  · refine sound.ordered.imp ?_
    intro q r apart first second here there
    obtain ⟨one, atOne, keyOne⟩ := cell here
    obtain ⟨two, atTwo, keyTwo⟩ := cell there
    rw [← keyOne, ← keyTwo]
    exact apart _ _ atOne atTwo
  · exact sound.counted
  · exact sound.bounded
  · intro q outside
    have different : q ≠ p := Nat.ne_of_gt (Nat.lt_of_lt_of_le (sound.below there) outside)
    exact (if_neg different).trans (sound.beyond q outside)

/-! Links. -/

/-- The head of a list is out of it, and nothing else. -/
structure Evicted (c after : Cache Node) (p : Nat) : Prop where
  tree : after.tree = c.tree.erase p
  lru : c.lru = p :: after.lru
  cells : after.cells = fun q => if q = p then none else c.cells q
  next : after.next = c.next

theorem evict_sound (sound : Sound key capacity c) (full : c.nrCached = capacity)
    (positive : 0 < capacity) :
    ∃ p after, evict c = some after ∧ Evicted c after p ∧ Sound key capacity after ∧
      after.lru.length < capacity := by
  rw [evict]
  cases list : c.lru with
  | nil =>
      have none := sound.counted
      rw [list, full] at none
      exact absurd none (Nat.ne_of_gt positive)
  | cons p rest =>
      have here : p ∈ c.lru := by
        rw [list]
        exact List.mem_cons_self
      obtain ⟨node, there⟩ := sound.live p here
      have once := sound.once
      rw [list, List.nodup_cons] at once
      have kept {q : Nat} (linked : q ∈ rest) :
          (if q = p then none else c.cells q) = c.cells q := by
        apply if_neg
        rintro rfl
        exact once.1 linked
      have length := sound.counted
      rw [list, List.length_cons] at length
      have unlinked {q : Nat} (member : q ∈ c.tree.erase p) : q ∈ c.tree ∧ q ≠ p := by
        rw [sound.tree_once.mem_erase_iff] at member
        exact ⟨member.2, member.1⟩
      refine ⟨p, _, if_pos ⟨sound.same.mem_iff.mpr here, by rw [there]; rfl⟩,
        ⟨rfl, list, rfl, rfl⟩, ?_, by change rest.length < capacity; omega⟩
      constructor
      · have erased := sound.same.erase p
        rw [list, List.erase_cons_head] at erased
        exact erased
      · exact once.2
      · intro q linked
        obtain ⟨other, alive⟩ := sound.live q (by rw [list]; exact List.mem_cons_of_mem _ linked)
        exact ⟨other, (kept linked).trans alive⟩
      · refine (sound.ordered.sublist List.erase_sublist).imp_of_mem ?_
        intro q r first second apart one two atOne atTwo
        change (if q = p then none else c.cells q) = some one at atOne
        change (if r = p then none else c.cells r) = some two at atTwo
        rw [if_neg (unlinked first).2] at atOne
        rw [if_neg (unlinked second).2] at atTwo
        exact apart one two atOne atTwo
      · change c.nrCached - 1 = rest.length
        omega
      · change rest.length ≤ capacity
        omega
      · intro q outside
        change (if q = p then none else c.cells q) = none
        rw [sound.beyond q outside, ite_self]

theorem place_perm (c : Cache Node) (wanted p : Nat) (nodes : List Nat) :
    (place key c wanted p nodes).Perm (p :: nodes) := by
  induction nodes with
  | nil => exact .refl _
  | cons q rest ih =>
      rw [place]
      split
      · exact (ih.cons q).trans (.swap p q rest)
      · exact .refl _

/-- The nodes in front of the new one have smaller keys, those behind it greater ones. -/
theorem place_ordered {nodes : List Nat} (there : c.cells p = some node)
    (live : ∀ q ∈ nodes, ∃ other, c.cells q = some other ∧ key other ≠ key node)
    (ordered : nodes.Pairwise fun p q =>
      ∀ first second, c.cells p = some first → c.cells q = some second → key first < key second) :
    (place key c (key node) p nodes).Pairwise fun p q =>
      ∀ first second, c.cells p = some first → c.cells q = some second →
        key first < key second := by
  induction nodes with
  | nil => exact List.pairwise_singleton _ _
  | cons q rest ih =>
      obtain ⟨above, tail⟩ := List.pairwise_cons.mp ordered
      obtain ⟨other, here, different⟩ := live q List.mem_cons_self
      have later := ih (fun r member => live r (List.mem_cons_of_mem _ member)) tail
      rw [place]
      by_cases less : key other < key node
      · rw [if_pos (by simpa [before, here] using less)]
        apply List.pairwise_cons.mpr ⟨?_, later⟩
        intro r member first second atFirst atSecond
        rw [here] at atFirst
        cases atFirst
        rcases List.mem_cons.mp ((place_perm c (key node) p rest).mem_iff.mp member) with
          same | behind
        · rw [same, there] at atSecond
          cases atSecond
          exact less
        · exact above r behind _ _ here atSecond
      · rw [if_neg (by simpa [before, here] using less)]
        refine List.pairwise_cons.mpr ⟨?_, ordered⟩
        intro r member first second atFirst atSecond
        rw [there] at atFirst
        cases atFirst
        have next : key node < key other := by omega
        rcases List.mem_cons.mp member with same | behind
        · rw [same, here] at atSecond
          cases atSecond
          exact next
        · exact Nat.lt_trans next (above r behind _ _ here atSecond)

/-- The node makes room for another one. -/
def Leaves (capacity : Nat) (c : Cache Node) (q : Nat) : Prop :=
  c.nrCached = capacity ∧ c.lru.head? = some q

/-- A new node is linked, and the rest stays, but for the one that makes room. -/
structure Linked (capacity p : Nat) (c after : Cache Node) : Prop where
  nodes : ∀ q, q ∈ after.lru ↔ q = p ∨ q ∈ c.lru ∧ ¬ Leaves capacity c q
  stays : ∀ q, ¬ Leaves capacity c q → after.cells q = c.cells q
  leaves : ∀ q, Leaves capacity c q → after.cells q = none
  next : after.next = c.next

theorem link_room (sound : Sound key capacity c) (room : c.lru.length < capacity)
    (there : c.cells p = some node) (unlinked : p ∉ c.lru)
    (missing : find key (key node) c = none) :
    Sound key capacity { c with
      tree := insert key p (key node) c, lru := c.lru ++ [p], nrCached := c.nrCached + 1 } := by
  have tree : insert key p (key node) c = place key c (key node) p c.tree := by
    rw [insert, missing]
  have perm : (place key c (key node) p c.tree).Perm (p :: c.tree) := place_perm c (key node) p c.tree
  have last := List.perm_append_singleton p c.lru
  constructor
  · rw [tree]
    exact (perm.trans (sound.same.cons p)).trans last.symm
  · exact last.nodup_iff.mpr (List.nodup_cons.mpr ⟨unlinked, sound.once⟩)
  · intro q linked
    rcases List.mem_cons.mp (last.mem_iff.mp linked) with same | old
    · rw [same]
      exact ⟨node, there⟩
    · exact sound.live q old
  · rw [tree]
    apply place_ordered there ?_ sound.ordered
    intro q member
    obtain ⟨other, here⟩ := sound.tree_live member
    exact ⟨other, here, find_none missing member here⟩
  · change c.nrCached + 1 = (c.lru ++ [p]).length
    rw [List.length_append, sound.counted]
    rfl
  · rw [List.length_append]
    exact room
  · exact sound.beyond

theorem Evicted.missing {head : Nat} (evicted : Evicted c after head)
    (missing : find key wanted c = none) : find key wanted after = none := by
  rw [find, List.find?_eq_none] at missing ⊢
  intro q member
  rw [evicted.tree] at member
  rw [evicted.cells]
  have checked := missing q (List.mem_of_mem_erase member)
  simp only [decide_eq_true_eq] at checked ⊢
  split
  · nofun
  · exact checked

theorem link_sound (sound : Sound key capacity c) (positive : 0 < capacity)
    (there : c.cells p = some node) (unlinked : p ∉ c.lru)
    (missing : find key (key node) c = none) :
    ∃ after, link key capacity p c = some after ∧ Sound key capacity after ∧
      Linked capacity p c after := by
  have room (c : Cache Node) (still : Sound key capacity c) (there : c.cells p = some node) :
      (match c.cells p with
        | none => none
        | some node =>
            if Dangles c then none
            else some { c with
              tree := insert key p (key node) c, lru := c.lru ++ [p],
              nrCached := c.nrCached + 1 }) =
        some { c with
          tree := insert key p (key node) c, lru := c.lru ++ [p], nrCached := c.nrCached + 1 } := by
    rw [there]
    exact if_neg still.intact
  by_cases full : c.nrCached = capacity
  · obtain ⟨head, smaller, evicts, evicted, still, less⟩ := evict_sound sound full positive
    have other : p ≠ head := by
      rintro rfl
      rw [evicted.lru] at unlinked
      exact unlinked List.mem_cons_self
    have alive : smaller.cells p = some node :=
      (congrFun evicted.cells p).trans ((if_neg other).trans there)
    have absent : p ∉ smaller.lru := by
      rw [evicted.lru] at unlinked
      exact fun linked => unlinked (List.mem_cons_of_mem _ linked)
    refine ⟨_, ?_, link_room still less alive absent (evicted.missing missing), ?_⟩
    · rw [link, if_pos full, evicts]
      exact room smaller still alive
    · have gone {q : Nat} (leaves : Leaves capacity c q) : q = head := by
        have first := leaves.2
        rw [evicted.lru] at first
        exact (Option.some.inj first).symm
      have leaves : Leaves capacity c head := by
        refine ⟨full, ?_⟩
        rw [evicted.lru]
        rfl
      have once := sound.once
      rw [evicted.lru, List.nodup_cons] at once
      constructor
      · intro q
        rw [List.mem_append, List.mem_singleton, or_comm, evicted.lru, List.mem_cons]
        constructor
        · rintro (same | old)
          · exact .inl same
          · refine .inr ⟨.inr old, fun leaves => once.1 ?_⟩
            rwa [← gone leaves]
        · rintro (same | ⟨here | old, stays⟩)
          · exact .inl same
          · exact absurd (here ▸ leaves) stays
          · exact .inr old
      · intro q stays
        have different : q ≠ head := by
          rintro rfl
          exact stays leaves
        exact (congrFun evicted.cells q).trans (if_neg different)
      · intro q leaves
        exact (congrFun evicted.cells q).trans (if_pos (gone leaves))
      · exact evicted.next
  · have less : c.lru.length < capacity := by
      have bounded := sound.bounded
      have counted := sound.counted
      omega
    have stays {q : Nat} : ¬ Leaves capacity c q := fun leaves => full leaves.1
    refine ⟨_, ?_, link_room sound less there unlinked missing, ?_⟩
    · rw [link, if_neg full]
      exact room c sound there
    · constructor
      · intro q
        rw [List.mem_append, List.mem_singleton, or_comm, and_iff_left stays]
      · exact fun _ _ => rfl
      · exact fun q leaves => absurd leaves stays
      · rfl

/-- A node that was linked is found, or another one under its key. -/
theorem link_found (linked : link key capacity p c = some after) :
    ∃ node, after.cells p = some node ∧ (find key (key node) after).isSome := by
  rw [link] at linked
  obtain ⟨room, _, linked⟩ := Option.bind_eq_some_iff.mp linked
  cases there : room.cells p with
  | none =>
      rw [there] at linked
      cases linked
  | some node =>
      rw [there] at linked
      dsimp only at linked
      by_cases dangles : Dangles room
      · rw [if_pos dangles] at linked
        cases linked
      · rw [if_neg dangles] at linked
        cases linked
        refine ⟨node, there, ?_⟩
        cases found : find key (key node) room with
        | some q =>
            have tree : insert key p (key node) room = room.tree := by rw [insert, found]
            rw [tree]
            exact Option.isSome_iff_exists.mpr ⟨q, found⟩
        | none =>
            have tree : insert key p (key node) room = place key room (key node) p room.tree := by
              rw [insert, found]
            rw [find, List.find?_isSome]
            refine ⟨p, ?_, ?_⟩
            · rw [tree]
              exact (place_perm room (key node) p room.tree).mem_iff.mpr List.mem_cons_self
            · rw [there]
              exact decide_eq_true rfl

theorem find_store (there : c.cells p = some node) {new : Node} (same : key new = key node) :
    find key wanted (store p new c) = find key wanted c := by
  apply List.find?_congr
  intro q _
  change decide ((if q = p then some new else c.cells q).map key = some wanted) = _
  by_cases here : q = p
  · rw [if_pos here, here, there, Option.map_some, Option.map_some, same]
  · rw [if_neg here]

/-! What is held. -/

theorem Sound.held_linked (sound : Sound key capacity c) (member : p ∈ c.lru)
    (there : c.cells p = some node) : held key (key node) c = some node :=
  held_spec (sound.find_linked (sound.same.mem_iff.mpr member) there) there

theorem held_linked (there : held key wanted c = some node) :
    ∃ p ∈ c.tree, c.cells p = some node ∧ find key wanted c = some p := by
  rw [held] at there
  obtain ⟨p, found, here⟩ := Option.bind_eq_some_iff.mp there
  exact ⟨p, (find_spec found).1, here, found⟩

theorem held_none : held key wanted c = none ↔ find key wanted c = none := by
  rw [held]
  cases found : find key wanted c with
  | none => exact iff_of_true rfl rfl
  | some p =>
      obtain ⟨_, node, there, _⟩ := find_spec found
      rw [Option.bind_some, there]
      exact iff_of_false nofun nofun

/-- The rest of what is held stays, but for the node that makes room. -/
theorem Linked.held (linked : Linked capacity p c after) (before : Sound key capacity c)
    (sound : Sound key capacity after) (there : after.cells p = some node)
    (different : wanted ≠ key node) :
    held key wanted after = held key wanted c ∨
      held key wanted after = none ∧ victim capacity c = held key wanted c := by
  cases old : NodeCache.held key wanted c with
  | none =>
      left
      cases new : NodeCache.held key wanted after with
      | none => rfl
      | some other =>
          obtain ⟨q, member, here, _⟩ := held_linked new
          rcases (linked.nodes q).mp (sound.same.mem_iff.mp member) with same | ⟨kept, stays⟩
          · rw [same, there] at here
            cases here
            exact absurd (held_key new).symm different
          · rw [linked.stays q stays] at here
            have found := before.held_linked kept here
            rw [held_key new, old] at found
            cases found
  | some other =>
      obtain ⟨q, member, here, _⟩ := held_linked old
      have kept := before.same.mem_iff.mp member
      by_cases leaves : Leaves capacity c q
      · right
        refine ⟨?_, ?_⟩
        · cases new : NodeCache.held key wanted after with
          | none => rfl
          | some another =>
              obtain ⟨r, also, alive, _⟩ := held_linked new
              rcases (linked.nodes r).mp (sound.same.mem_iff.mp also) with same | ⟨still, stays⟩
              · rw [same, there] at alive
                cases alive
                exact absurd (held_key new).symm different
              · rw [linked.stays r stays] at alive
                have same := before.alike (before.same.mem_iff.mpr still) member alive here
                  ((held_key new).trans (held_key old).symm)
                rw [same] at stays
                exact absurd leaves stays
        · rw [victim, if_pos leaves.1, leaves.2]
          exact here
      · left
        have still := (linked.nodes q).mpr (.inr ⟨kept, leaves⟩)
        have alive := (linked.stays q leaves).trans here
        have found := sound.held_linked still alive
        rwa [held_key old] at found

theorem held_store (sound : Sound key capacity c) (there : c.cells p = some node) {new : Node}
    (same : key new = key node) (member : p ∈ c.lru) :
    held key wanted (store p new c) = if wanted = key node then some new else held key wanted c := by
  have still := sound.store there same
  split
  · next here =>
      rw [here, ← same]
      exact still.held_linked member (if_pos rfl)
  · next different =>
      cases old : held key wanted c with
      | none =>
          rw [held_none] at old ⊢
          rw [find, List.find?_eq_none] at old ⊢
          intro q linked
          have checked := old q linked
          simp only [decide_eq_true_eq] at checked ⊢
          change (if q = p then some new else c.cells q).map key ≠ some wanted
          split
          · rw [Option.map_some, same]
            exact fun equal => different (Option.some.inj equal).symm
          · exact checked
      | some other =>
          obtain ⟨q, linked, here, _⟩ := held_linked old
          have apart : q ≠ p := by
            rintro rfl
            rw [here] at there
            cases there
            exact different (held_key old).symm
          have alive : (store p new c).cells q = some other := (if_neg apart).trans here
          have found := still.held_linked (sound.same.mem_iff.mp linked) alive
          rwa [held_key old] at found

theorem held_congr (tree : after.tree = c.tree) (cells : after.cells = c.cells) :
    held key wanted after = held key wanted c := by
  rw [held, held, find, find, tree, cells]

theorem held_malloc (sound : Sound key capacity c) (node : Node) :
    held key wanted (malloc node c) = held key wanted c := by
  have cell {q : Nat} (member : q ∈ c.tree) : (malloc node c).cells q = c.cells q := by
    obtain ⟨other, there⟩ := sound.tree_live member
    exact if_neg (Nat.ne_of_lt (sound.below there))
  have found : find key wanted (malloc node c) = find key wanted c := by
    rw [find, find]
    apply List.find?_congr
    intro q member
    rw [cell member]
  rw [held, held, found]
  cases hit : find key wanted c with
  | none => rfl
  | some p => exact cell (find_spec hit).1

theorem victim_malloc (sound : Sound key capacity c) (node : Node) :
    victim capacity (malloc node c) = victim capacity c := by
  change (if c.nrCached = capacity then c.lru.head?.bind (malloc node c).cells else none) = _
  rw [victim]
  congr 1
  cases first : c.lru.head? with
  | none => rfl
  | some p =>
      obtain ⟨other, there⟩ := sound.live p (List.mem_of_mem_head? first)
      exact if_neg (Nat.ne_of_lt (sound.below there))

end Facts

end VirtioDisk.NodeCache
