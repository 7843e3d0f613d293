import Mathlib.Data.List.DropRight

/-!
A bounded cache of nodes that are found by a key, as the list of its nodes from
the least to the most recently used one. A hit moves its node to the tail; an
insertion into a full cache drops the head. A property of all nodes is kept by
both, when the inserted node has it. The keys of the nodes are those used last.
-/

namespace VirtioDisk.LruCache

variable {Key Node : Type} [DecidableEq Key] (key : Node → Key)

def lookup (wanted : Key) (nodes : List Node) : Option Node :=
  nodes.find? fun node => key node = wanted

def touch (wanted : Key) (nodes : List Node) : List Node :=
  match lookup key wanted nodes with
  | none => nodes
  | some node => nodes.eraseP (fun other => key other = wanted) ++ [node]

def insert (capacity : Nat) (node : Node) (nodes : List Node) : List Node :=
  (if nodes.length = capacity then nodes.tail else nodes) ++ [node]

-- Every node that has the key, were it linked more than once.
def update (wanted : Key) (change : Node → Node) (nodes : List Node) : List Node :=
  nodes.map fun node => if key node = wanted then change node else node

variable {key} {wanted : Key} {node : Node} {nodes : List Node}

theorem lookup_mem (found : lookup key wanted nodes = some node) : node ∈ nodes :=
  List.mem_of_find?_eq_some found

theorem lookup_key (found : lookup key wanted nodes = some node) : key node = wanted := by
  have checked := List.find?_some found
  simpa using checked

theorem lookup_of_mem (member : node ∈ nodes) (same : key node = wanted) :
    ∃ found, lookup key wanted nodes = some found := by
  apply Option.isSome_iff_exists.mp
  unfold lookup
  rw [List.find?_isSome]
  exact ⟨node, member, by simpa using same⟩

theorem touch_mem (found : lookup key wanted nodes = some node) :
    node ∈ touch key wanted nodes := by
  unfold touch
  rw [found]
  exact List.mem_append_right _ (List.mem_singleton_self node)

theorem insert_mem (capacity : Nat) (node : Node) (nodes : List Node) :
    node ∈ insert capacity node nodes :=
  List.mem_append_right _ (List.mem_singleton_self node)

theorem mem_touch {other : Node} (member : other ∈ touch key wanted nodes) : other ∈ nodes := by
  unfold touch at member
  split at member
  · exact member
  · next found =>
      rcases List.mem_append.mp member with kept | moved
      · exact List.mem_of_mem_eraseP kept
      · rw [List.mem_singleton.mp moved]
        exact lookup_mem found

theorem mem_insert {capacity : Nat} {other : Node} (member : other ∈ insert capacity node nodes) :
    other = node ∨ other ∈ nodes := by
  unfold insert at member
  rcases List.mem_append.mp member with kept | new
  · right
    split at kept
    · exact List.mem_of_mem_tail kept
    · exact kept
  · exact Or.inl (List.mem_singleton.mp new)

theorem lookup_update {new : Node} (found : lookup key wanted nodes = some node)
    (same : key new = wanted) :
    lookup key wanted (update key wanted (fun _ => new) nodes) = some new := by
  induction nodes with
  | nil => cases found
  | cons first rest ih =>
      by_cases here : key first = wanted
      · simp [lookup, update, here, same]
      · have later : lookup key wanted rest = some node := by
          simpa [lookup, here] using found
        simpa [lookup, update, here] using ih later

theorem forall_touch {holds : Node → Prop} (all : ∀ other ∈ nodes, holds other) :
    ∀ other ∈ touch key wanted nodes, holds other := by
  intro other member
  exact all other (mem_touch member)

theorem forall_insert {holds : Node → Prop} {capacity : Nat} (new : holds node)
    (all : ∀ other ∈ nodes, holds other) : ∀ other ∈ insert capacity node nodes, holds other := by
  intro other member
  rcases mem_insert member with same | old
  · rw [same]
    exact new
  · exact all other old

/-! The keys by their last use, the latest one last. -/

def used (recent : List Key) (wanted : Key) : List Key := recent.erase wanted ++ [wanted]

theorem used_nodup {recent : List Key} (once : recent.Nodup) (wanted : Key) :
    (used recent wanted).Nodup := by
  apply List.nodup_append.mpr ⟨once.erase wanted, List.pairwise_singleton _ wanted, ?_⟩
  intro other kept last member same
  rw [same, List.mem_singleton.mp member] at kept
  exact once.not_mem_erase kept

/-- The nodes are those of the last uses, in their order. The others were dropped
by a full cache. -/
structure Recent (key : Node → Key) (capacity : Nat) (recent : List Key) (nodes : List Node) :
    Prop where
  once : recent.Nodup
  split : ∃ old, recent = old ++ nodes.map key ∧ (old ≠ [] → nodes.length = capacity)
  bounded : nodes.length ≤ capacity

omit [DecidableEq Key] in
theorem recent_empty (key : Node → Key) (capacity : Nat) : Recent key capacity [] [] :=
  ⟨List.nodup_nil, ⟨[], rfl, fun some => absurd rfl some⟩, Nat.zero_le capacity⟩

section Recency
variable {capacity : Nat} {recent : List Key}

omit [DecidableEq Key] in
theorem Recent.keys (fresh : Recent key capacity recent nodes) :
    nodes.map key = recent.rtake capacity := by
  obtain ⟨old, split, dropped⟩ := fresh.split
  have bounded := fresh.bounded
  rw [List.rtake, split]
  by_cases none : old = []
  · rw [none, List.nil_append, List.length_map, Nat.sub_eq_zero_of_le bounded, List.drop_zero]
  · have length : (old ++ nodes.map key).length - capacity = old.length := by
      rw [List.length_append, List.length_map, dropped none, Nat.add_sub_cancel]
    rw [length, List.drop_left]

theorem touch_keys (found : lookup key wanted nodes = some node) :
    (touch key wanted nodes).map key = used (nodes.map key) wanted := by
  have same : (fun other => decide (key other = wanted)) = (· == wanted) ∘ key := by
    funext other
    rfl
  rw [touch, found, used, List.erase_eq_eraseP', List.eraseP_map, List.map_append, same]
  simp [lookup_key found]

theorem Recent.touch (fresh : Recent key capacity recent nodes)
    (found : lookup key wanted nodes = some node) :
    Recent key capacity (used recent wanted) (touch key wanted nodes) := by
  obtain ⟨old, split, dropped⟩ := fresh.split
  have late : wanted ∈ nodes.map key := by
    rw [← lookup_key found]
    exact List.mem_map_of_mem (lookup_mem found)
  have once := fresh.once
  rw [split, List.nodup_append] at once
  have early : wanted ∉ old := fun member => once.2.2 wanted member wanted late rfl
  have keys := touch_keys found
  have length : (LruCache.touch key wanted nodes).length = nodes.length := by
    have both := congrArg List.length keys
    have positive := List.length_pos_of_mem late
    rw [used, List.length_map, List.length_append, List.length_erase_of_mem late,
      List.length_map, List.length_singleton] at both
    rw [List.length_map] at positive
    omega
  refine ⟨used_nodup fresh.once wanted, ⟨old, ?_, ?_⟩, ?_⟩
  · rw [keys, used, used, split, List.erase_append_right _ early, List.append_assoc]
  · rw [length]
    exact dropped
  · rw [length]
    exact fresh.bounded

theorem Recent.insert (fresh : Recent key capacity recent nodes) (positive : 0 < capacity)
    (missing : lookup key (key node) nodes = none) :
    Recent key capacity (used recent (key node)) (insert capacity node nodes) := by
  obtain ⟨old, split, dropped⟩ := fresh.split
  have late : key node ∉ nodes.map key := by
    intro member
    obtain ⟨other, linked, same⟩ := List.mem_map.mp member
    obtain ⟨found, looked⟩ := lookup_of_mem linked same
    rw [missing] at looked
    cases looked
  have after : used recent (key node) = old.erase (key node) ++ (nodes.map key ++ [key node]) := by
    rw [used, split, List.erase_append]
    split
    · rw [List.append_assoc]
    · next absent => rw [List.erase_of_not_mem late, List.erase_of_not_mem absent, List.append_assoc]
  refine ⟨used_nodup fresh.once _, ?_, ?_⟩
  · rw [after, LruCache.insert]
    by_cases full : nodes.length = capacity
    · rw [if_pos full]
      cases nodes with
      | nil => exact absurd full positive.ne
      | cons head rest =>
          refine ⟨old.erase (key node) ++ [key head], by simp, fun _ => ?_⟩
          simpa using full
    · have none : old = [] := by
        by_contra some
        exact full (dropped some)
      rw [if_neg full, none]
      exact ⟨[], by simp, fun some => absurd rfl some⟩
  · have bounded := fresh.bounded
    rw [LruCache.insert, List.length_append, List.length_singleton]
    split
    · rw [List.length_tail]
      omega
    · omega

end Recency

end VirtioDisk.LruCache
