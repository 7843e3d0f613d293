import VirtioDisk.RbTree

/-!
A red-black tree in memory. The entries of the tree are its nodes' addresses, so a tree
says what every node holds. While a step is under way, the tree above a hole and the
subtree for it are held each on its own.
-/

namespace VirtioDisk.SearchTree.RbTree

open RedBlackTree
open SearchTree.Tree (join)

variable {Entry : Type}

/-- A node seen from one side. -/
def cell (side : Side) (parent : Option Entry) (colour : Colour) (near far : Option Entry) :
    RbNode Entry :=
  match side with
  | .left => ⟨parent, colour, far, near⟩
  | .right => ⟨parent, colour, near, far⟩

section Cells
variable (side : Side) (parent other : Option Entry) (colour shade : Colour)
  (near far p : Option Entry)

@[simp] theorem cell_parent : (cell side parent colour near far).parent = parent := by
  cases side <;> rfl

@[simp] theorem cell_colour : (cell side parent colour near far).colour = colour := by
  cases side <;> rfl

@[simp] theorem cell_child : (cell side parent colour near far).child side = near := by
  cases side <;> rfl

@[simp] theorem cell_child_other : (cell side parent colour near far).child side.other = far := by
  cases side <;> rfl

@[simp] theorem cell_setChild : (cell side parent colour near far).setChild side p =
    cell side parent colour p far := by
  cases side <;> rfl

@[simp] theorem cell_setChild_other : (cell side parent colour near far).setChild side.other p =
    cell side parent colour near p := by
  cases side <;> rfl

@[simp] theorem cell_recolour : RbNode.mk other shade (cell side parent colour near far).right
    (cell side parent colour near far).left = cell side other shade near far := by
  cases side <;> rfl

theorem cell_other : cell side.other parent colour near far = cell side parent colour far near := by
  cases side <;> rfl

end Cells

def parentOf : List (Frame Entry) → Option Entry
  | [] => none
  | frame :: _ => some frame.entry

/-- The nodes of a subtree, whose top has this parent. -/
def Holds (m : Memory Entry) : Option Entry → Tree Entry → Prop
  | _, .leaf => True
  | parent, .node colour left p right =>
      m.node p = some ⟨parent, colour, right.top, left.top⟩ ∧
        Holds m (some p) left ∧ Holds m (some p) right

/-- The nodes around a hole, which point to `hole` there. -/
def HeldPath (m : Memory Entry) : List (Frame Entry) → Option Entry → Prop
  | [], hole => m.root = hole
  | frame :: path, hole =>
      m.node frame.entry =
          some (cell frame.side (parentOf path) frame.colour hole frame.sibling.top) ∧
        Holds m (some frame.entry) frame.sibling ∧ HeldPath m path (some frame.entry)

def entries : List (Frame Entry) → List Entry
  | [] => []
  | frame :: path => frame.entry :: (frame.sibling.inorder ++ entries path)

/-- A tree in memory, in two parts. -/
structure Zipped (m : Memory Entry) (path : List (Frame Entry)) (tree : Tree Entry) : Prop where
  way : HeldPath m path tree.top
  below : Holds m (parentOf path) tree
  once : (plug path tree).inorder.Nodup

theorem holds_join {m : Memory Entry} {parent : Option Entry} {side : Side} {colour : Colour}
    {near far : Tree Entry} {p : Entry} :
    Holds m parent (join side colour near p far) ↔
      m.node p = some (cell side parent colour near.top far.top) ∧
        Holds m (some p) near ∧ Holds m (some p) far := by
  cases side with
  | left => rfl
  | right => exact and_congr_right fun _ => and_comm

theorem zipped_cons {m : Memory Entry} {frame : Frame Entry} {path : List (Frame Entry)}
    {tree : Tree Entry} :
    Zipped m path (join frame.side frame.colour tree frame.entry frame.sibling) ↔
      Zipped m (frame :: path) tree := by
  constructor
  · rintro ⟨way, below, once⟩
    rw [Tree.top_join] at way
    obtain ⟨here, near, far⟩ := holds_join.mp below
    exact ⟨⟨here, far, way⟩, near, once⟩
  · rintro ⟨⟨here, far, way⟩, near, once⟩
    exact ⟨by rwa [Tree.top_join], holds_join.mpr ⟨here, near, far⟩, once⟩

theorem zipped_plug {m : Memory Entry} {path : List (Frame Entry)} {tree : Tree Entry} :
    Zipped m [] (plug path tree) ↔ Zipped m path tree := by
  induction path generalizing tree with
  | nil => rfl
  | cons frame path ih => exact ih.trans zipped_cons

theorem join_perm (side : Side) (colour : Colour) (near far : Tree Entry) (p : Entry) :
    (join side colour near p far).inorder.Perm (near.inorder ++ p :: far.inorder) := by
  cases side with
  | left => exact .refl _
  | right =>
      exact List.perm_middle.trans ((List.perm_append_comm.cons p).trans List.perm_middle.symm)

theorem mem_join {side : Side} {colour : Colour} {near far : Tree Entry} {p q : Entry} :
    q ∈ (join side colour near p far).inorder ↔ q ∈ near.inorder ∨ q = p ∨ q ∈ far.inorder := by
  rw [(join_perm side colour near far p).mem_iff, List.mem_append, List.mem_cons]

theorem plug_perm (path : List (Frame Entry)) (tree : Tree Entry) :
    (plug path tree).inorder.Perm (tree.inorder ++ entries path) := by
  induction path generalizing tree with
  | nil => simp [plug, entries]
  | cons frame path ih =>
      refine (ih _).trans (((join_perm ..).append_right _).trans ?_)
      rw [List.append_assoc]
      rfl

theorem Zipped.apart {m : Memory Entry} {path : List (Frame Entry)} {tree : Tree Entry}
    (zipped : Zipped m path tree) : (tree.inorder ++ entries path).Nodup :=
  (plug_perm path tree).nodup_iff.mp zipped.once

theorem mem_plug {path : List (Frame Entry)} {tree : Tree Entry} {q : Entry} :
    q ∈ (plug path tree).inorder ↔ q ∈ tree.inorder ∨ q ∈ entries path :=
  (plug_perm path tree).mem_iff.trans List.mem_append

/-! What a write leaves alone. -/

section Frames
variable {m after : Memory Entry} {parent hole : Option Entry} {path : List (Frame Entry)}
  {tree : Tree Entry}

theorem Holds.frame (holds : Holds m parent tree)
    (same : ∀ q ∈ tree.inorder, after.node q = m.node q) : Holds after parent tree := by
  induction tree generalizing parent with
  | leaf => trivial
  | node colour left p right inLeft inRight =>
      obtain ⟨here, one, two⟩ := holds
      refine ⟨(same p (by simp [Tree.inorder])).trans here, inLeft one ?_, inRight two ?_⟩
      · exact fun q member => same q (by simp [Tree.inorder, member])
      · exact fun q member => same q (by simp [Tree.inorder, member])

theorem Holds.present {p : Entry} (holds : Holds m parent tree) (inside : p ∈ tree.inorder) :
    (m.node p).isSome := by
  induction tree generalizing parent with
  | leaf => cases inside
  | node colour left top right inLeft inRight =>
      obtain ⟨here, one, two⟩ := holds
      rcases List.mem_append.mp inside with first | rest
      · exact inLeft one first
      · rcases List.mem_cons.mp rest with rfl | last
        · rw [here]
          rfl
        · exact inRight two last

theorem mem_top {p : Entry} (there : tree.top = some p) : p ∈ tree.inorder := by
  cases tree with
  | leaf => cases there
  | node =>
      cases there
      simp [Tree.inorder]

theorem HeldPath.frame (way : HeldPath m path hole) (root : after.root = m.root)
    (same : ∀ q ∈ entries path, after.node q = m.node q) : HeldPath after path hole := by
  induction path generalizing hole with
  | nil => exact root.trans way
  | cons frame path ih =>
      obtain ⟨here, sibling, way⟩ := way
      refine ⟨(same _ (by simp [entries])).trans here, sibling.frame ?_, ih way ?_⟩
      · exact fun q member => same q (by simp [entries, member])
      · exact fun q member => same q (by simp [entries, member])

theorem redThere_tree {parent : Option Entry} {tree : Tree Entry} (holds : Holds m parent tree) :
    redThere m tree.top = some (decide (tree.colour = .red)) := by
  cases tree with
  | leaf => rfl
  | node colour left top right =>
      simp only [redThere, rbIsRed, Tree.top, Option.isSome_some, if_true, Memory.deref, holds.1]
      rfl

theorem isRed_tree {parent : Option Entry} {tree : Tree Entry} (holds : Holds m parent tree)
    (there : tree.top ≠ none) : rbIsRed m tree.top = some (decide (tree.colour = .red)) := by
  have opened := redThere_tree holds
  rwa [redThere, if_pos (Option.isSome_iff_ne_none.mpr there)] at opened

end Frames

/-! What a write does. -/

section Writes
variable [DecidableEq Entry] {m : Memory Entry} {p q : Entry} {n : RbNode Entry}

@[simp] theorem put_root : (m.put p n).root = m.root := rfl

@[simp] theorem put_same : (m.put p n).node p = some n := if_pos rfl

theorem put_other (other : q ≠ p) : (m.put p n).node q = m.node q := if_neg other

theorem put_away {others : List Entry} (member : q ∈ others) (absent : p ∉ others) :
    (m.put p n).node q = m.node q :=
  put_other fun same => absent (same ▸ member)

theorem write_some (here : m.node p = some n) (f : RbNode Entry → RbNode Entry) :
    m.write (some p) f = some (m.put p (f n)) := by
  rw [Memory.write, here]
  rfl

theorem writes_tree {parent : Option Entry} {tree : Tree Entry} (other : Option Entry)
    (colour : Colour) (holds : Holds m parent tree) (once : tree.inorder.Nodup)
    (there : tree.top ≠ none)
    {f : RbNode Entry → RbNode Entry}
    (recolours : ∀ n, n.colour = tree.colour → f n = ⟨other, colour, n.right, n.left⟩) :
    ∃ after, m.write tree.top f = some after ∧ Holds after other (tree.recolour colour) ∧
      after.root = m.root ∧ ∀ q ∉ tree.inorder, after.node q = m.node q := by
  cases tree with
  | leaf => exact absurd rfl there
  | node shade left top right =>
      obtain ⟨is, one, two⟩ := holds
      have apart := List.nodup_middle.mp once
      rw [List.nodup_cons, List.mem_append, not_or] at apart
      obtain ⟨⟨inLeft, inRight⟩, _⟩ := apart
      refine ⟨_, write_some is f, ⟨?_, one.frame ?_, two.frame ?_⟩, rfl, ?_⟩
      · rw [recolours _ rfl]
        exact put_same
      · exact fun q member => put_away member inLeft
      · exact fun q member => put_away member inRight
      · exact fun q away => put_other fun same => away (by simp [same, Tree.inorder])

theorem setParentColor_tree {parent : Option Entry} {tree : Tree Entry} (other : Option Entry)
    (colour : Colour) (holds : Holds m parent tree) (once : tree.inorder.Nodup)
    (there : tree.top ≠ none) :
    ∃ after, rbSetParentColor m tree.top other colour = some after ∧
      Holds after other (tree.recolour colour) ∧
      after.root = m.root ∧ ∀ q ∉ tree.inorder, after.node q = m.node q :=
  writes_tree other colour holds once there fun _ _ => rfl

theorem setParent_tree {parent : Option Entry} {tree : Tree Entry} (other : Option Entry)
    (holds : Holds m parent tree) (once : tree.inorder.Nodup) (there : tree.top ≠ none) :
    ∃ after, rbSetParent m tree.top other = some after ∧ Holds after other tree ∧
      after.root = m.root ∧ ∀ q ∉ tree.inorder, after.node q = m.node q := by
  have same : tree.recolour tree.colour = tree := by
    cases tree <;> rfl
  have written := writes_tree other tree.colour holds once there
    (fun n shade => show { n with parent := other } = _ by rw [← shade])
  rwa [same] at written

theorem adopt_tree {parent : Option Entry} {tree : Tree Entry} (other : Option Entry)
    (holds : Holds m parent tree) (once : tree.inorder.Nodup) :
    ∃ after, adopt m tree.top other = some after ∧ Holds after other (tree.recolour .black) ∧
      after.root = m.root ∧ ∀ q ∉ tree.inorder, after.node q = m.node q := by
  cases tree with
  | leaf => exact ⟨m, rfl, trivial, rfl, fun _ _ => rfl⟩
  | node => exact setParentColor_tree other .black holds once (by simp [Tree.top])

theorem carry_tree {parent : Option Entry} {tree : Tree Entry} (other : Option Entry)
    (holds : Holds m parent tree) (once : tree.inorder.Nodup) :
    ∃ after, carry m tree.top other = some after ∧ Holds after other tree ∧
      after.root = m.root ∧ ∀ q ∉ tree.inorder, after.node q = m.node q := by
  cases tree with
  | leaf => exact ⟨m, rfl, trivial, rfl, fun _ _ => rfl⟩
  | node => exact setParent_tree other holds once (by simp [Tree.top])

/-- The pointer to a hole is changed where it is. -/
theorem changeChild_path {path : List (Frame Entry)} (new : Option Entry)
    (way : HeldPath m path (some p)) (once : (p :: entries path).Nodup) :
    ∃ after, rbChangeChild m (some p) new (parentOf path) = some after ∧ HeldPath after path new ∧
      ∀ q ∉ entries path, after.node q = m.node q := by
  cases path with
  | nil => exact ⟨{ m with root := new }, rfl, rfl, fun _ _ => rfl⟩
  | cons frame path =>
      obtain ⟨side, colour, parent, sibling⟩ := frame
      obtain ⟨here, beside, way⟩ := way
      obtain ⟨away, once⟩ := List.nodup_cons.mp once
      rw [entries, List.mem_cons, List.mem_append, not_or, not_or] at away
      obtain ⟨_, apart, _⟩ := away
      rw [entries, List.nodup_cons, List.mem_append, not_or] at once
      obtain ⟨⟨inSibling, inPath⟩, _⟩ := once
      have different : sibling.top ≠ some p := fun same => apart (mem_top same)
      refine ⟨m.put parent
          ((cell side (parentOf path) colour (some p) sibling.top).setChild side new),
        ?_, ⟨?_, beside.frame ?_, way.frame rfl ?_⟩, ?_⟩
      · simp only [rbChangeChild, parentOf, Option.isSome_some, if_true, Memory.deref, here]
        cases side with
        | left =>
            refine (if_pos rfl).trans ?_
            exact write_some here _
        | right =>
            refine (if_neg different).trans ?_
            exact write_some here _
      · rw [cell_setChild]
        exact put_same
      · exact fun q member => put_away member inSibling
      · exact fun q member => put_away member inPath
      · exact fun q away => put_other fun same => away (by simp [same, entries])

end Writes

end VirtioDisk.SearchTree.RbTree
