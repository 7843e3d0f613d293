import VirtioDisk.RbUnlinking

/-!
util/rbtree.c as a whole: nodes are linked into empty pointers and taken out, in any order,
and walked through with `rb_first` and `rb_next` or backward. What the tree holds is a
sequence; a walk toward one side is the other one's mirror image.
-/

namespace VirtioDisk.SearchTree.TreeEdits

open RbTree RedBlackTree
open SearchTree.Tree (join)

variable {Entry : Type}

section Walks
variable [DecidableEq Entry] (m : Memory Entry) (side : Side)

/-- From child to child on one side. -/
def descend : Nat → Entry → Option Entry
  | 0, _ => none
  | turns + 1, n => do
      match (← m.node n).child side with
      | none => some n
      | some lower => descend turns lower

/-- From parent to parent, while the node is the child on this side. -/
def climb : Nat → Entry → Option (Option Entry)
  | 0, _ => none
  | turns + 1, n => do
      match (← m.node n).parent with
      | none => some none
      | some parent =>
          if (← m.node parent).child side = some n then climb turns parent
          else some (some parent)

variable (turns : Nat)

/-- The last node on one side. -/
def outermost : Option (Option Entry) :=
  match m.root with
  | none => some none
  | some n => (descend m side turns n).map some

def rbFirst : Option (Option Entry) := outermost m .left turns

def rbLast : Option (Option Entry) := outermost m .right turns

/-- `RB_EMPTY_NODE`: the word of the parent is the node itself, without the bit of black. -/
def rbEmptyNode (n : Entry) (node : RbNode Entry) : Bool :=
  node.parent = some n ∧ node.colour = .red

/-- The next node toward one side. -/
def neighbour (n : Entry) : Option (Option Entry) := do
  let node ← m.node n
  if rbEmptyNode n node then some none
  else match node.child side with
    | some lower => (descend m side.other turns lower).map some
    | none => climb m side turns n

def rbNext (n : Entry) : Option (Option Entry) := neighbour m .right turns n

def rbPrev (n : Entry) : Option (Option Entry) := neighbour m .left turns n

/-- The nodes from `pos` on, by one call after the other. -/
def walkFrom (next : Entry → Option (Option Entry)) : Nat → Option Entry → Option (List Entry)
  | _, none => some []
  | 0, some _ => none
  | bound + 1, some n => do
      let after ← next n
      let rest ← walkFrom next bound after
      some (n :: rest)

def walk (bound : Nat) : Option (List Entry) := do
  let first ← outermost m side.other turns
  walkFrom (neighbour m side turns) bound first

end Walks

/-! The nodes as a sequence, read toward one side. -/

def along (side : Side) (list : List Entry) : List Entry :=
  if side = .right then list else list.reverse

/-- What is past the hole. -/
def ahead (side : Side) : List (Frame Entry) → List Entry
  | [] => []
  | frame :: path =>
      if frame.side = side then ahead side path
      else frame.entry :: along side frame.sibling.inorder ++ ahead side path

def behind (side : Side) : List (Frame Entry) → List Entry
  | [] => []
  | frame :: path =>
      if frame.side = side then
        behind side path ++ along side frame.sibling.inorder ++ [frame.entry]
      else behind side path

section Sequences
variable {m : Memory Entry} {side : Side} {turns : Nat} {path : List (Frame Entry)}
  {tree near far : Tree Entry} {n : Entry}

theorem other_other (side : Side) : side.other.other = side := by
  cases side <;> rfl

theorem along_join (colour : Colour) :
    along side (join side colour near n far).inorder =
      along side far.inorder ++ n :: along side near.inorder := by
  cases side <;> simp [along, join, Tree.inorder]

theorem along_join_other {other : Side} (different : other ≠ side) (colour : Colour) :
    along side (join other colour near n far).inorder =
      along side near.inorder ++ n :: along side far.inorder := by
  rw [side_other different, other_join, along_join]

theorem along_leaf : along side (Tree.leaf : Tree Entry).inorder = [] := by
  cases side <;> rfl

theorem along_plug : along side (plug path tree).inorder =
    behind side path ++ along side tree.inorder ++ ahead side path := by
  induction path generalizing tree with
  | nil => simp [plug, behind, ahead]
  | cons frame path ih =>
      obtain ⟨inward, colour, entry, sibling⟩ := frame
      rw [plug, ih]
      by_cases same : inward = side
      · subst same
        simp [behind, ahead, along_join]
      · simp [behind, ahead, same, along_join_other same]

theorem descend_spec {parent : Option Entry} (holds : Holds m parent tree) (top : tree.top = some n)
    (enough : depth tree ≤ turns) :
    (descend m side turns n).map some = some (along side.other tree.inorder).head? := by
  induction turns generalizing parent tree n with
  | zero =>
      cases tree with
      | leaf => cases top
      | node => simp [depth] at enough
  | succ turns ih =>
      obtain rfl | ⟨colour, near, entry, far, rfl⟩ := tree.from_side side
      · cases top
      cases (Tree.top_join ..).symm.trans top
      obtain ⟨here, below, _⟩ := holds_join.mp holds
      have lower := depth_plug [⟨side, colour, n, far⟩] near
      simp only [plug, List.length_singleton] at lower
      have order : along side.other (join side colour near n far).inorder =
          along side.other near.inorder ++ n :: along side.other far.inorder :=
        along_join_other (by cases side <;> decide) colour
      rw [order, descend, here]
      simp only [bind, Option.bind_some, cell_child]
      cases first : near.top with
      | none =>
          cases near with
          | leaf => cases side <;> rfl
          | node => cases first
      | some deeper =>
          have inside := ih below first (by omega)
          obtain ⟨found, is, same⟩ := Option.map_eq_some_iff.mp inside
          rw [List.head?_append_of_ne_nil _ fun none => by rw [none] at same; cases same]
          exact inside

theorem outermost_spec (zipped : Zipped m [] tree) (deep : depth tree < turns) :
    outermost m side turns = some (along side.other tree.inorder).head? := by
  have root : m.root = tree.top := zipped.way
  rw [outermost, root]
  cases first : tree.top with
  | none =>
      cases tree with
      | leaf => cases side <;> rfl
      | node => cases first
  | some n => exact descend_spec zipped.below first deep.le

variable [DecidableEq Entry]

theorem climb_spec (way : HeldPath m path (some n)) (once : (n :: entries path).Nodup)
    {node : RbNode Entry} (here : m.node n = some node) (parent : node.parent = parentOf path)
    (enough : path.length < turns) :
    climb m side turns n = some (ahead side path).head? := by
  induction path generalizing n node turns with
  | nil =>
      obtain ⟨less, rfl⟩ : ∃ less, turns = less + 1 := ⟨turns - 1, by omega⟩
      simp only [climb, here, bind, Option.bind_some, parent, parentOf]
      rfl
  | cons frame path ih =>
      obtain ⟨less, rfl⟩ : ∃ less, turns = less + 1 := ⟨turns - 1, by omega⟩
      obtain ⟨inward, colour, entry, sibling⟩ := frame
      obtain ⟨above, _, way⟩ := way
      obtain ⟨away, rest⟩ := List.nodup_cons.mp once
      simp only [climb, here, bind, Option.bind_some, parent, parentOf, above, ahead]
      by_cases same : inward = side
      · subst same
        have single : (entry :: entries path).Nodup := by
          rw [entries] at rest
          exact rest.sublist ((List.sublist_append_right _ _).cons_cons entry)
        rw [cell_child, if_pos rfl, if_pos rfl]
        exact ih way single above (cell_parent ..) (by simpa using enough)
      · have different : sibling.top ≠ some n := by
          intro top
          exact away (by simp [entries, mem_top top])
        have turned : side = inward.other := side_other fun equal => same equal.symm
        rw [turned, cell_child_other, if_neg different, ← turned, if_neg same]
        rfl

theorem neighbour_there {colour : Colour} (zipped : Zipped m path (join side colour near n far))
    (deep : depth near ≤ turns) (long : path.length < turns) :
    neighbour m side turns n = some (along side near.inorder ++ ahead side path).head? := by
  have once := zipped.apart
  obtain ⟨way, below, _⟩ := zipped
  obtain ⟨here, inside, _⟩ := holds_join.mp below
  rw [Tree.top_join] at way
  have single : (n :: entries path).Nodup := by
    have top : [n].Sublist (join side colour near n far).inorder :=
      List.singleton_sublist.mpr (mem_join.mpr (.inr (.inl rfl)))
    exact once.sublist (top.append (.refl _))
  have linked : parentOf path ≠ some n := by
    cases path with
    | nil => simp [parentOf]
    | cons frame path =>
        rintro same
        cases same
        exact (List.nodup_cons.mp single).1 (by simp [entries])
  have used : rbEmptyNode n (cell side (parentOf path) colour near.top far.top) = false := by
    simp [rbEmptyNode, linked]
  simp only [neighbour, here, bind, Option.bind_some, used, Bool.false_eq_true, if_false,
    cell_child]
  cases first : near.top with
  | none =>
      cases near with
      | leaf =>
          rw [along_leaf]
          exact climb_spec way single here (cell_parent ..) long
      | node => cases first
  | some lower =>
      have down := @descend_spec _ _ side.other _ _ _ _ inside first deep
      rw [other_other] at down
      obtain ⟨found, is, same⟩ := Option.map_eq_some_iff.mp down
      rw [List.head?_append_of_ne_nil _ fun none => by rw [none] at same; cases same]
      exact down

/-- The way to a node of the tree, and the node seen from one side. -/
theorem opened_from (side : Side) (inside : n ∈ tree.inorder) :
    ∃ path colour near far, plug path (join side colour near n far) = tree := by
  obtain ⟨place, found⟩ : ∃ place, locate n [] tree = some place :=
    Option.ne_none_iff_exists'.mp fun none => (locate_none _ _).mp none inside
  obtain ⟨path, colour, left, right⟩ := place
  have opened := (locate_some found).1
  cases side with
  | left => exact ⟨path, colour, left, right, opened⟩
  | right => exact ⟨path, colour, right, left, opened⟩

/-- The node that comes next in the sequence is the neighbour. -/
theorem neighbour_spec {front rest : List Entry} (zipped : Zipped m [] tree)
    (split : along side tree.inorder = front ++ n :: rest) (deep : depth tree < turns) :
    neighbour m side turns n = some rest.head? := by
  have once : (along side tree.inorder).Nodup := by
    cases side with
    | left => exact List.nodup_reverse.mpr zipped.once
    | right => exact zipped.once
  have inside : n ∈ tree.inorder := by
    have member : n ∈ along side tree.inorder := by simp [split]
    cases side with
    | left => exact List.mem_reverse.mp member
    | right => exact member
  obtain ⟨path, colour, near, far, rfl⟩ := opened_from side inside
  have whole := depth_plug path (join side colour near n far)
  have lower := depth_plug [⟨side, colour, n, far⟩] near
  simp only [plug, List.length_singleton] at lower
  rw [neighbour_there (zipped_plug.mp zipped) (by omega) (by omega)]
  rw [along_plug, along_join] at split once
  rw [split] at once
  have ends : behind side path ++ along side far.inorder ++
      n :: (along side near.inorder ++ ahead side path) = front ++ n :: rest := by
    simpa using split
  have clear : n ∉ front := fun member =>
    (List.nodup_append.mp once).2.2 n member n List.mem_cons_self rfl
  have after : n ∉ rest := (List.nodup_cons.mp (List.nodup_append.mp once).2.1).1
  rw [((List.append_cons_inj_of_notMem clear after).mp ends.symm).2.2]

/-- A walk visits every node once, in the order of the sequence. -/
theorem walk_spec {bound : Nat} (zipped : Zipped m [] tree) (deep : depth tree < turns)
    (enough : tree.inorder.length ≤ bound) :
    walk m side turns bound = some (along side tree.inorder) := by
  have rest (front after : List Entry) (bound : Nat)
      (split : along side tree.inorder = front ++ after) (enough : after.length ≤ bound) :
      walkFrom (neighbour m side turns) bound after.head? = some after := by
    induction after generalizing front bound with
    | nil => rw [List.head?_nil, walkFrom]
    | cons n after ih =>
        obtain ⟨less, rfl⟩ : ∃ less, bound = less + 1 :=
          ⟨bound - 1, by rw [List.length_cons] at enough; omega⟩
        have next := ih (front ++ [n]) less (by simpa using split) (by simpa using enough)
        simp only [List.head?_cons, walkFrom, neighbour_spec zipped split deep, bind,
          Option.bind_some, next]
  have start := @outermost_spec _ _ side.other _ _ zipped deep
  have size : (along side tree.inorder).length = tree.inorder.length := by
    cases side <;> simp [along]
  rw [other_other] at start
  rw [walk, start]
  exact rest [] _ bound rfl (size.trans_le enough)

end Sequences

/-! Edits in a row. -/

/-- A node linked at a pointer, that of the root or of a parent, or taken out. -/
inductive Edit (Entry : Type) where
  | insert (p : Entry) (parent : Option Entry) (slot : Side)
  | erase (p : Entry)

def Edit.subject : Edit Entry → Entry
  | .insert p _ _ => p
  | .erase p => p

/-- A red-black tree with these nodes in order. -/
def Orders (m : Memory Entry) (list : List Entry) : Prop :=
  ∃ tree, Zipped m [] tree ∧ Balanced tree ∧ tree.inorder = list

theorem root_orders {m : Memory Entry} {list : List Entry} (orders : Orders m list)
    (empty : m.root = none) : Zipped m [] .leaf ∧ list = [] := by
  obtain ⟨tree, zipped, _, rfl⟩ := orders
  have root : m.root = tree.top := zipped.way
  cases tree with
  | leaf => exact ⟨zipped, rfl⟩
  | node => cases root.symm.trans empty

section Edits
variable [DecidableEq Entry]

def edit (turns : Nat) (m : Memory Entry) : Edit Entry → Option (Memory Entry)
  | .insert p parent slot => do
      let m ← rbLinkNode m (some p) parent slot
      rbInsertColor m turns (some p)
  | .erase p => rbErase m turns (some p)

/-- Right before or right behind the parent. -/
def placed (p parent : Entry) (slot : Side) : List Entry → List Entry
  | [] => []
  | entry :: rest =>
      if entry = parent then if slot = .left then p :: entry :: rest else entry :: p :: rest
      else entry :: placed p parent slot rest

def edited (list : List Entry) : Edit Entry → List Entry
  | .insert p none _ => [p]
  | .insert p (some parent) slot => placed p parent slot list
  | .erase p => list.erase p

/-- What a caller sees to: the node is in memory and not in the tree, and the pointer that it
is linked at is one of the tree's and null; or the node is in the tree. -/
def Allowed (m : Memory Entry) (list : List Entry) : Edit Entry → Prop
  | .insert p none _ => m.root = none ∧ (m.node p).isSome
  | .insert p (some parent) slot => p ∉ list ∧ (m.node p).isSome ∧ parent ∈ list ∧
      ∃ node, m.node parent = some node ∧ node.child slot = none
  | .erase p => p ∈ list

/-- Each edit is allowed in the memory that it finds. -/
def AllAllowed (turns : Nat) : Memory Entry → List Entry → List (Edit Entry) → Prop
  | _, _, [] => True
  | m, list, e :: rest => Allowed m list e ∧
      ∀ next, edit turns m e = some next → AllAllowed turns next (edited list e) rest

section Steps
variable {m : Memory Entry} {turns : Nat} {list : List Entry} {p parent q : Entry} {slot : Side}

theorem placed_parts {front rest : List Entry} (clear : parent ∉ front) :
    placed p parent slot (front ++ parent :: rest) =
      front ++ if slot = .left then p :: parent :: rest else parent :: p :: rest := by
  induction front with
  | nil => simp [placed]
  | cons entry front ih =>
      rw [List.mem_cons, not_or] at clear
      rw [List.cons_append, placed, if_neg (Ne.symm clear.1), ih clear.2]
      rfl

theorem placed_perm (inside : parent ∈ list) : (placed p parent slot list).Perm (p :: list) := by
  induction list with
  | nil => cases inside
  | cons entry rest ih =>
      rw [placed]
      split
      · split
        · exact .refl _
        · exact .swap ..
      · next different =>
          have deeper := (List.mem_cons.mp inside).resolve_left (Ne.symm different)
          exact ((ih deeper).cons entry).trans (.swap ..)

/-- Whether a pointer of the tree is null says where the new node comes in the sequence. -/
theorem slot_orders {tree : Tree Entry} {node : RbNode Entry} (zipped : Zipped m [] tree)
    (inside : parent ∈ tree.inorder) (there : m.node parent = some node)
    (free : node.child slot = none) :
    ∃ path, Zipped m path .leaf ∧ plug path .leaf = tree ∧ parentOf path = some parent ∧
      linkOf path = slot ∧
      before path ++ p :: RedBlackTree.after path = placed p parent slot tree.inorder := by
  obtain ⟨path, colour, near, far, rfl⟩ := opened_from slot inside
  have split := zipped_plug.mp zipped
  have here := (holds_join.mp split.below).1
  rw [there] at here
  cases here
  rw [cell_child] at free
  cases near with
  | node => cases free
  | leaf =>
      refine ⟨⟨slot, colour, parent, far⟩ :: path, zipped_cons.mp split, rfl, rfl, rfl, ?_⟩
      have once := split.once
      rw [plug_inorder] at once ⊢
      cases slot with
      | left =>
          have clear : parent ∉ before path := fun member =>
            (List.nodup_append.mp (List.nodup_append.mp once).1).2.2 parent member parent
              (by simp [join, Tree.inorder]) rfl
          have parts := @placed_parts _ _ p parent .left _ (far.inorder ++ after path) clear
          simpa [before, after, join, Tree.inorder] using parts.symm
      | right =>
          have clear : parent ∉ before path ++ far.inorder := by
            intro member
            simp only [join, Tree.inorder, ← List.append_assoc] at once
            have front := (List.nodup_append.mp once).1
            exact (List.nodup_append.mp front).2.2 parent member parent (by simp) rfl
          have parts := @placed_parts _ _ p parent .right _ (after path) clear
          simpa [before, after, join, Tree.inorder] using parts.symm

theorem edited_perm {e : Edit Entry} (orders : Orders m list) (allowed : Allowed m list e) :
    (∃ q, e = .erase q ∧ (q :: edited list e).Perm list) ∨
      (edited list e).Perm (e.subject :: list) := by
  cases e with
  | erase q => exact .inl ⟨q, rfl, (List.perm_cons_erase allowed).symm⟩
  | insert p parent slot =>
      cases parent with
      | none =>
          obtain ⟨_, rfl⟩ := root_orders orders allowed.1
          exact .inr (.refl _)
      | some parent => exact .inr (placed_perm allowed.2.2.1)

theorem edit_ordered {e : Edit Entry} (orders : Orders m list) (allowed : Allowed m list e)
    (enough : 2 * Nat.log 2 (list.length + 1) < turns) :
    ∃ after, edit turns m e = some after ∧ Orders after (edited list e) ∧
      ∀ q, q ≠ e.subject → q ∉ list → after.node q = m.node q := by
  cases e with
  | erase p =>
      obtain ⟨tree, zipped, balanced, rfl⟩ := orders
      obtain ⟨after, erases, final, whole, order, frame⟩ :=
        erased_balanced zipped balanced allowed ((balanced_depth balanced).trans enough.le)
      exact ⟨after, erases, ⟨_, final, whole, order⟩,
        fun q _ away => frame q fun inside => away (List.mem_of_mem_erase inside)⟩
  | insert p parent slot =>
      cases parent with
      | none =>
          obtain ⟨root, there⟩ := allowed
          obtain ⟨zipped, rfl⟩ := root_orders orders root
          obtain ⟨node, present⟩ := Option.isSome_iff_exists.mp there
          obtain ⟨linked, after, tree, links, inserts, final, whole, _, order, frame⟩ :=
            inserted_balanced zipped ⟨rfl, 0, rfl⟩ (by simp [plug, Tree.inorder]) present
              (Nat.zero_lt_of_lt enough)
          refine ⟨after, ?_, ⟨tree, final, whole, order⟩, fun q other _ => frame q other ?_⟩
          · have same : rbLinkNode m (some p) none slot = some linked := links
            simp only [edit, same, bind, Option.bind_some, inserts]
          · simp [plug, Tree.inorder]
      | some parent =>
          obtain ⟨fresh, there, inside, node, stands, free⟩ := allowed
          obtain ⟨tree, zipped, balanced, rfl⟩ := orders
          obtain ⟨n, present⟩ := Option.isSome_iff_exists.mp there
          obtain ⟨path, hole, same, up, link, sequence⟩ :=
            @slot_orders _ _ _ p _ _ _ _ zipped inside stands free
          have deep := depth_plug path (.leaf : Tree Entry)
          have low := balanced_depth balanced
          rw [same, depth] at deep
          have short : path.length < turns := by omega
          obtain ⟨linked, after, larger, links, inserts, final, whole, _, order, frame⟩ :=
            inserted_balanced hole (by rwa [same]) (by rwa [same]) present short
          rw [up, link] at links
          refine ⟨after, ?_, ⟨larger, final, whole, order.trans sequence⟩,
            fun q other away => frame q other (by rwa [same])⟩
          simp only [edit, links, bind, Option.bind_some, inserts]

/-- Every run of edits comes through, and its memory holds what the sequence has become. -/
theorem edits_ordered {edits : List (Edit Entry)} (orders : Orders m list)
    (allowed : AllAllowed turns m list edits)
    (enough : 2 * Nat.log 2 (list.length + edits.length + 1) < turns) :
    ∃ final, edits.foldlM (edit turns) m = some final ∧ Orders final (edits.foldl edited list) ∧
      (edits.foldl edited list).length ≤ list.length + edits.length ∧
      ∀ q, q ∉ list → (∀ e ∈ edits, e.subject ≠ q) → final.node q = m.node q := by
  induction edits generalizing m list with
  | nil => exact ⟨m, rfl, orders, Nat.le_refl _, fun _ _ _ => rfl⟩
  | cons e edits ih =>
      obtain ⟨first, others⟩ := allowed
      rw [List.length_cons] at enough
      have low : Nat.log 2 (list.length + 1) ≤ Nat.log 2 (list.length + (edits.length + 1) + 1) :=
        Nat.log_mono_right (by omega)
      obtain ⟨next, takes, kept, frame⟩ := edit_ordered orders first (show _ < turns by omega)
      have size : (edited list e).length ≤ list.length + 1 := by
        rcases edited_perm orders first with ⟨q, _, perm⟩ | perm
        · have := perm.length_eq
          rw [List.length_cons] at this
          omega
        · exact perm.length_eq.le
      have members (q : Entry) (away : q ∉ list) (other : e.subject ≠ q) : q ∉ edited list e := by
        rcases edited_perm orders first with ⟨r, _, perm⟩ | perm
        · exact fun member => away (perm.subset (List.mem_cons_of_mem _ member))
        · exact fun member => (List.mem_cons.mp (perm.subset member)).elim (Ne.symm other) away
      have high : Nat.log 2 ((edited list e).length + edits.length + 1) ≤
          Nat.log 2 (list.length + (edits.length + 1) + 1) := Nat.log_mono_right (by omega)
      obtain ⟨final, runs, ends, length, later⟩ := ih kept (others next takes) (by omega)
      refine ⟨final, ?_, ends, ?_, fun q away each => ?_⟩
      · rw [List.foldlM_cons, takes]
        exact runs
      · rw [List.length_cons, List.foldl_cons]
        omega
      · obtain ⟨other, each⟩ := List.forall_mem_cons.mp each
        rw [later q (members q away other) each, frame q (Ne.symm other) away]

/-- From an empty root on, and both walks through what is there in the end. -/
theorem edits_walked {edits : List (Edit Entry)} (empty : m.root = none)
    (allowed : AllAllowed turns m [] edits) (enough : 2 * Nat.log 2 (edits.length + 1) < turns) :
    ∃ final, edits.foldlM (edit turns) m = some final ∧ Orders final (edits.foldl edited []) ∧
      (rbFirst final turns).bind (walkFrom (rbNext final turns) edits.length) =
        some (edits.foldl edited []) ∧
      (rbLast final turns).bind (walkFrom (rbPrev final turns) edits.length) =
        some (edits.foldl edited []).reverse ∧
      ∀ q, (∀ e ∈ edits, e.subject ≠ q) → final.node q = m.node q := by
  have start : Orders m [] := ⟨.leaf, ⟨empty, trivial, .nil⟩, ⟨rfl, 0, rfl⟩, rfl⟩
  have bound : 2 * Nat.log 2 (([] : List Entry).length + edits.length + 1) < turns := by
    rwa [List.length_nil, Nat.zero_add]
  obtain ⟨final, runs, orders, size, frame⟩ := edits_ordered start allowed bound
  rw [List.length_nil, Nat.zero_add] at size
  refine ⟨final, runs, orders, ?_, ?_, fun q => frame q List.not_mem_nil⟩
  all_goals
    obtain ⟨tree, zipped, balanced, order⟩ := orders
    have deep : depth tree < turns := by
      refine (balanced_depth balanced).trans_lt (Nat.lt_of_le_of_lt ?_ enough)
      exact Nat.mul_le_mul_left 2 (Nat.log_mono_right (by rw [order]; omega))
    rw [← order] at size
  · have forward : walk final .right turns edits.length = some tree.inorder :=
      walk_spec zipped deep size
    exact forward.trans (congrArg some order)
  · have backward : walk final .left turns edits.length = some tree.inorder.reverse :=
      walk_spec zipped deep size
    exact backward.trans (congrArg some (congrArg List.reverse order))

/-- Four nodes with a turn at the root, of which the second is taken out. -/
theorem four_nodes_walked :
    let m : Memory Nat := ⟨fun _ => some ⟨none, .red, none, none⟩, none⟩
    let edits : List (Edit Nat) := [.insert 0 none .left, .insert 2 (some 0) .right,
      .insert 1 (some 2) .left, .insert 3 (some 2) .right, .erase 1]
    ∃ final, edits.foldlM (edit 5) m = some final ∧ Orders final [0, 2, 3] ∧
      (rbFirst final 5).bind (walkFrom (rbNext final 5) 5) = some [0, 2, 3] ∧
      (rbLast final 5).bind (walkFrom (rbPrev final 5) 5) = some [3, 2, 0] ∧
      ∀ q, (∀ e ∈ edits, e.subject ≠ q) → final.node q = m.node q :=
  edits_walked rfl
    ⟨⟨rfl, rfl⟩, fun _ done => Option.some.inj done ▸
    ⟨⟨by decide, rfl, by decide, _, rfl, rfl⟩, fun _ done => Option.some.inj done ▸
    ⟨⟨by decide, rfl, by decide, _, rfl, rfl⟩, fun _ done => Option.some.inj done ▸
    ⟨⟨by decide, rfl, by decide, _, rfl, rfl⟩, fun _ done => Option.some.inj done ▸
    ⟨(by decide : 1 ∈ [0, 1, 2, 3]), fun _ _ => trivial⟩⟩⟩⟩⟩
    (by decide)

end Steps

end Edits

end VirtioDisk.SearchTree.TreeEdits
