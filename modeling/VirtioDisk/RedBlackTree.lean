import Mathlib.Data.List.Nodup
import VirtioDisk.SearchTree

/-!
Red-black trees from below: a subtree and the way up from it, one frame for each
ancestor, innermost first. A step looks at a node from the side where the way comes
up, so the two mirrored halves of each algorithm are one. `none` is an algorithm that
misses a node it needs; a red-black tree always has it.
-/

namespace VirtioDisk.SearchTree

inductive Side where
  | left | right
  deriving DecidableEq

def Side.other : Side → Side
  | .left => .right
  | .right => .left

namespace Tree

variable {Entry : Type}

def top : Tree Entry → Option Entry
  | .leaf => none
  | .node _ _ entry _ => some entry

/-- Leaves are black. -/
def colour : Tree Entry → Colour
  | .leaf => .black
  | .node colour _ _ _ => colour

def child (side : Side) : Tree Entry → Tree Entry
  | .leaf => .leaf
  | .node _ left _ right => if side = .left then left else right

def recolour (colour : Colour) : Tree Entry → Tree Entry
  | .leaf => .leaf
  | .node _ left entry right => .node colour left entry right

/-- A node with the subtree `near` on the given side. -/
def join (side : Side) (colour : Colour) (near : Tree Entry) (entry : Entry) (far : Tree Entry) :
    Tree Entry :=
  match side with
  | .left => .node colour near entry far
  | .right => .node colour far entry near

section Joined
variable (side : Side) (shade : Colour) (near far : Tree Entry) (entry : Entry)

@[simp] theorem top_join : (join side shade near entry far).top = some entry := by
  cases side <;> rfl

@[simp] theorem colour_join : (join side shade near entry far).colour = shade := by
  cases side <;> rfl

@[simp] theorem child_join : (join side shade near entry far).child side = near := by
  cases side <;> rfl

@[simp] theorem child_other_join : (join side shade near entry far).child side.other = far := by
  cases side <;> rfl

@[simp] theorem recolour_join (other : Colour) :
    (join side shade near entry far).recolour other = join side other near entry far := by
  cases side <;> rfl

end Joined

/-- A tree seen from one side is a leaf or a node. -/
theorem from_side (side : Side) (tree : Tree Entry) :
    tree = .leaf ∨ ∃ colour near entry far, tree = join side colour near entry far := by
  cases tree with
  | leaf => exact .inl rfl
  | node colour left entry right =>
      cases side with
      | left => exact .inr ⟨colour, left, entry, right, rfl⟩
      | right => exact .inr ⟨colour, right, entry, left, rfl⟩

@[simp] theorem top_leaf : (leaf : Tree Entry).top = none := rfl

@[simp] theorem top_node (shade : Colour) (left : Tree Entry) (entry : Entry) (right : Tree Entry) :
    (node shade left entry right).top = some entry := rfl

@[simp] theorem top_recolour (shade : Colour) (tree : Tree Entry) :
    (tree.recolour shade).top = tree.top := by
  cases tree <;> rfl

theorem inorder_recolour (shade : Colour) (tree : Tree Entry) :
    (tree.recolour shade).inorder = tree.inorder := by
  cases tree <;> rfl

end Tree

end VirtioDisk.SearchTree

namespace VirtioDisk.SearchTree.RedBlackTree

open SearchTree.Tree (join)

variable {Entry : Type}

structure Frame (Entry : Type) where
  side : Side
  colour : Colour
  entry : Entry
  sibling : Tree Entry

def plug : List (Frame Entry) → Tree Entry → Tree Entry
  | [], tree => tree
  | frame :: path, tree => plug path (join frame.side frame.colour tree frame.entry frame.sibling)

/-! Insertion: a red node may have a red parent. -/

/-- The rotations of a red node under a red parent whose sibling is not red. -/
def rotated (grand parent : Frame Entry) (tree : Tree Entry) : Option (Tree Entry) :=
  let side := grand.side
  if parent.side = side then
    some (join side grand.colour tree parent.entry
      (join side .red (parent.sibling.recolour .black) grand.entry grand.sibling))
  else
    tree.top.map fun entry =>
      join side grand.colour
        (join side .red parent.sibling parent.entry ((tree.child side).recolour .black)) entry
        (join side .red ((tree.child side.other).recolour .black) grand.entry grand.sibling)

def insertFix : List (Frame Entry) → Tree Entry → Option (Tree Entry)
  | [], tree => some (tree.recolour .black)
  | [parent], tree =>
      if parent.colour = .black then some (plug [parent] tree) else none
  | parent :: grand :: path, tree =>
      if parent.colour = .black then some (plug (parent :: grand :: path) tree)
      else if grand.sibling.colour = .red then
        insertFix path (join grand.side .red
          (join parent.side .black tree parent.entry parent.sibling) grand.entry
          (grand.sibling.recolour .black))
      else (rotated grand parent tree).map (plug path)

/-! Erasure: a black subtree has one black node too few on each of its ways down. -/

/-- A black sibling: the subtree that takes the place of the parent's, and whether
nothing is missing any more. -/
def settle (side : Side) (colour : Colour) (parent : Entry) (tree sibling : Tree Entry) :
    Option (Tree Entry × Bool) :=
  sibling.top.bind fun entry =>
    let inner := sibling.child side
    let outer := sibling.child side.other
    if outer.colour = .red then
      some (join side colour (join side .black tree parent inner) entry (outer.recolour .black), true)
    else if inner.colour = .red then
      inner.top.map fun middle =>
        (join side colour (join side .black tree parent (inner.child side)) middle
          (join side .black ((inner.child side.other).recolour .black) entry outer), true)
    else
      some (join side .black tree parent (join side .red inner entry outer), colour = .red)

/-- A red sibling is rotated up first, which leaves a black one and a red parent. -/
def eraseTurn (frame : Frame Entry) (tree : Tree Entry) : Option (Tree Entry × Bool) :=
  let side := frame.side
  if frame.sibling.colour = .red then
    frame.sibling.top.bind fun entry =>
      (settle side .red frame.entry tree ((frame.sibling.child side).recolour .black)).map
        fun lower =>
          (join side frame.colour lower.1 entry (frame.sibling.child side.other), lower.2)
  else settle side frame.colour frame.entry tree frame.sibling

def eraseFix : List (Frame Entry) → Tree Entry → Option (Tree Entry)
  | [], tree => some tree
  | frame :: path, tree =>
      (eraseTurn frame tree).bind fun turn =>
        if turn.2 then some (plug path turn.1) else eraseFix path turn.1

/-- The leftmost entry of a tree with its colour and its right subtree, and the way
up from there. -/
def leftmost : List (Frame Entry) → Colour → Tree Entry → Entry → Tree Entry →
    List (Frame Entry) × Colour × Entry × Tree Entry
  | path, colour, .leaf, entry, right => (path, colour, entry, right)
  | path, colour, .node below left lower middle, entry, right =>
      leftmost (⟨.left, colour, entry, right⟩ :: path) below left lower middle

/-- What is left where a node was taken out: the way up, the subtree there, and
whether a black node is missing. -/
structure Gap (Entry : Type) where
  path : List (Frame Entry)
  tree : Tree Entry
  missing : Bool

/-- A node with two subtrees is replaced by its successor. -/
def unlink (path : List (Frame Entry)) (colour : Colour) : Tree Entry → Tree Entry → Gap Entry
  | .leaf, right => ⟨path, right.recolour colour, right.top.isNone && colour = .black⟩
  | .node _ low entry high, .leaf => ⟨path, .node colour low entry high, false⟩
  | .node shade low root high, .node below lower entry right =>
      let (frames, taken, successor, rest) := leftmost [] below lower entry right
      ⟨frames ++ ⟨.right, colour, successor, .node shade low root high⟩ :: path,
        rest.recolour .black, rest.top.isNone && taken = .black⟩

def Gap.close (gap : Gap Entry) : Option (Tree Entry) :=
  if gap.missing then eraseFix gap.path gap.tree else some (plug gap.path gap.tree)

/-! The entries keep their order. -/

def before : List (Frame Entry) → List Entry
  | [] => []
  | frame :: path =>
      before path ++ if frame.side = .left then [] else frame.sibling.inorder ++ [frame.entry]

def after : List (Frame Entry) → List Entry
  | [] => []
  | frame :: path =>
      (if frame.side = .left then frame.entry :: frame.sibling.inorder else []) ++ after path

theorem plug_inorder (path : List (Frame Entry)) (tree : Tree Entry) :
    (plug path tree).inorder = before path ++ tree.inorder ++ after path := by
  induction path generalizing tree with
  | nil => simp [plug, before, after]
  | cons frame path ih =>
      obtain ⟨side, colour, entry, sibling⟩ := frame
      cases side <;> simp [plug, before, after, join, Tree.inorder, ih]

theorem plug_append (inner outer : List (Frame Entry)) (tree : Tree Entry) :
    plug (inner ++ outer) tree = plug outer (plug inner tree) := by
  induction inner generalizing tree with
  | nil => rfl
  | cons frame inner ih => exact ih _

theorem plug_same_inorder (path : List (Frame Entry)) {tree other : Tree Entry}
    (same : tree.inorder = other.inorder) :
    (plug path tree).inorder = (plug path other).inorder := by
  rw [plug_inorder, plug_inorder, same]

theorem join_same_inorder (side : Side) (first second : Colour) (entry : Entry)
    {near other far another : Tree Entry}
    (nears : near.inorder = other.inorder) (fars : far.inorder = another.inorder) :
    (join side first near entry far).inorder = (join side second other entry another).inorder := by
  cases side <;> simp [join, Tree.inorder, nears, fars]

/-- A rotation. -/
theorem rotation_inorder (side : Side) (a b c d : Colour) (one two : Entry)
    (near middle far : Tree Entry) :
    (join side a near one (join side b middle two far)).inorder =
      (join side c (join side d near one middle) two far).inorder := by
  cases side <;> simp [join, Tree.inorder]

theorem side_other {side other : Side} (different : side ≠ other) : side = other.other := by
  cases side <;> cases other <;> first | rfl | exact absurd rfl different

theorem other_join (side : Side) (colour : Colour) (near far : Tree Entry) (entry : Entry) :
    join side.other colour near entry far = join side colour far entry near := by
  cases side <;> rfl

theorem rotated_inorder {grand parent : Frame Entry} {tree turned : Tree Entry}
    (turns : rotated grand parent tree = some turned) :
    turned.inorder = (plug [parent, grand] tree).inorder := by
  obtain ⟨side, colour, top, uncle⟩ := grand
  obtain ⟨inward, shade, entry, sibling⟩ := parent
  simp only [rotated] at turns
  split at turns
  · next same =>
      subst same
      cases turns
      exact (join_same_inorder inward colour colour entry rfl
        (join_same_inorder inward .red .red top (sibling.inorder_recolour .black) rfl)).trans
        (rotation_inorder ..)
  · next different =>
      obtain ⟨middle, is, rfl⟩ := Option.map_eq_some_iff.mp turns
      obtain rfl | ⟨tint, near, node, far, rfl⟩ := tree.from_side side
      · cases is
      · cases (Tree.top_join ..).symm.trans is
        rw [plug, plug, plug, side_other different, other_join, Tree.child_join,
          Tree.child_other_join]
        cases side <;> simp [join, Tree.inorder, Tree.inorder_recolour]

theorem flip_inorder (parent grand : Frame Entry) (tree : Tree Entry) :
    (join grand.side .red (join parent.side .black tree parent.entry parent.sibling) grand.entry
      (grand.sibling.recolour .black)).inorder = (plug [parent, grand] tree).inorder :=
  join_same_inorder _ _ _ _ (join_same_inorder _ _ _ _ rfl rfl)
    (grand.sibling.inorder_recolour .black)

theorem insertFix_inorder {path : List (Frame Entry)} {tree fixed : Tree Entry}
    (fixes : insertFix path tree = some fixed) : fixed.inorder = (plug path tree).inorder := by
  induction path, tree using insertFix.induct with
  | case1 tree =>
      cases fixes
      exact tree.inorder_recolour .black
  | case2 parent tree done =>
      rw [insertFix, if_pos done] at fixes
      cases fixes
      rfl
  | case3 parent tree faulty =>
      rw [insertFix, if_neg faulty] at fixes
      cases fixes
  | case4 parent grand path tree done =>
      rw [insertFix, if_pos done] at fixes
      cases fixes
      rfl
  | case5 parent grand path tree redParent flips ih =>
      rw [insertFix, if_neg redParent, if_pos flips] at fixes
      rw [ih fixes]
      exact plug_same_inorder path (flip_inorder parent grand tree)
  | case6 parent grand path tree redParent turns =>
      rw [insertFix, if_neg redParent, if_neg turns] at fixes
      obtain ⟨turned, is, rfl⟩ := Option.map_eq_some_iff.mp fixes
      exact plug_same_inorder path (rotated_inorder is)

theorem settle_inorder {side : Side} {colour : Colour} {parent : Entry} {tree sibling : Tree Entry}
    {turn : Tree Entry × Bool} (settles : settle side colour parent tree sibling = some turn) :
    turn.1.inorder = (join side colour tree parent sibling).inorder := by
  obtain rfl | ⟨shade, inner, entry, outer, rfl⟩ := sibling.from_side side
  · cases settles
  simp only [settle, Tree.top_join, Option.bind_some, Tree.child_join, Tree.child_other_join]
    at settles
  split at settles
  · cases settles
    exact (join_same_inorder side colour colour entry rfl (outer.inorder_recolour .black)).trans
      (rotation_inorder ..).symm
  · split at settles
    · obtain ⟨middle, is, rfl⟩ := Option.map_eq_some_iff.mp settles
      obtain rfl | ⟨tint, near, node, far, rfl⟩ := inner.from_side side
      · cases is
      · cases (Tree.top_join ..).symm.trans is
        rw [Tree.child_join, Tree.child_other_join]
        refine (rotation_inorder side colour colour colour .black parent middle _ _ _).symm.trans
          (join_same_inorder side _ _ parent rfl ?_)
        refine Eq.trans ?_ (rotation_inorder side shade shade shade tint middle entry _ _ _)
        exact join_same_inorder side _ _ middle rfl
          (join_same_inorder side _ _ entry (far.inorder_recolour .black) rfl)
    · cases settles
      exact join_same_inorder side _ _ parent rfl (join_same_inorder side _ _ entry rfl rfl)

theorem eraseTurn_inorder {frame : Frame Entry} {tree : Tree Entry} {turn : Tree Entry × Bool}
    (turns : eraseTurn frame tree = some turn) :
    turn.1.inorder = (plug [frame] tree).inorder := by
  obtain ⟨side, colour, parent, sibling⟩ := frame
  simp only [eraseTurn] at turns
  split at turns
  · obtain ⟨entry, is, turns⟩ := Option.bind_eq_some_iff.mp turns
    obtain ⟨lower, settles, rfl⟩ := Option.map_eq_some_iff.mp turns
    obtain rfl | ⟨shade, inner, top, outer, rfl⟩ := sibling.from_side side
    · cases is
    · cases (Tree.top_join ..).symm.trans is
      rw [Tree.child_join] at settles
      rw [Tree.child_other_join]
      refine (join_same_inorder side _ colour entry ((settle_inorder settles).trans
        (join_same_inorder side _ .red parent rfl (inner.inorder_recolour .black))) rfl).trans ?_
      exact (rotation_inorder ..).symm
  · exact settle_inorder turns

theorem eraseFix_inorder {path : List (Frame Entry)} {tree fixed : Tree Entry}
    (fixes : eraseFix path tree = some fixed) : fixed.inorder = (plug path tree).inorder := by
  induction path generalizing tree with
  | nil =>
      cases fixes
      rfl
  | cons frame path ih =>
      obtain ⟨turn, turns, fixes⟩ := Option.bind_eq_some_iff.mp fixes
      have same := plug_same_inorder path (eraseTurn_inorder turns)
      split at fixes
      · cases fixes
        exact same
      · exact (ih fixes).trans same

theorem leftmost_plug (path : List (Frame Entry)) (colour : Colour) (left : Tree Entry)
    (entry : Entry) (right : Tree Entry) :
    plug (leftmost path colour left entry right).1
        (.node (leftmost path colour left entry right).2.1 .leaf
          (leftmost path colour left entry right).2.2.1
          (leftmost path colour left entry right).2.2.2) =
      plug path (.node colour left entry right) := by
  induction left generalizing path colour entry right with
  | leaf => rfl
  | node below left lower middle inLeft _ =>
      rw [leftmost, inLeft]
      rfl

theorem leftmost_before (path : List (Frame Entry)) (colour : Colour) (left : Tree Entry)
    (entry : Entry) (right : Tree Entry) (leftward : before path = []) :
    before (leftmost path colour left entry right).1 = [] := by
  induction left generalizing path colour entry right with
  | leaf => exact leftward
  | node below left lower middle inLeft _ =>
      refine inLeft _ _ _ _ ?_
      simp [before, leftward]

theorem unlink_inorder (path : List (Frame Entry)) (colour : Colour) (left right : Tree Entry) :
    (plug (unlink path colour left right).path (unlink path colour left right).tree).inorder =
      before path ++ (left.inorder ++ right.inorder) ++ after path := by
  cases left with
  | leaf =>
      rw [unlink, plug_inorder, Tree.inorder_recolour]
      rfl
  | node shade low entry high =>
      cases right with
      | leaf =>
          rw [unlink, plug_inorder, Tree.inorder, Tree.inorder, Tree.inorder, List.append_nil]
      | node below lower top right =>
          have whole := congrArg Tree.inorder (leftmost_plug [] below lower top right)
          have first := leftmost_before [] below lower top right rfl
          rw [plug_inorder, first] at whole
          simp only [unlink, plug_append, plug, join]
          rw [plug_inorder, Tree.inorder, plug_inorder, first, Tree.inorder_recolour]
          simp only [Tree.inorder, plug, List.nil_append] at whole ⊢
          rw [← whole]
          simp

/-! An entry is looked for by itself, from the left. -/

section Located
variable [DecidableEq Entry] (wanted : Entry)

structure Place (Entry : Type) where
  path : List (Frame Entry)
  colour : Colour
  left : Tree Entry
  right : Tree Entry

def locate : List (Frame Entry) → Tree Entry → Option (Place Entry)
  | _, .leaf => none
  | path, .node colour left entry right =>
      (locate (⟨.left, colour, entry, right⟩ :: path) left).or
        (if entry = wanted then some ⟨path, colour, left, right⟩
        else locate (⟨.right, colour, entry, left⟩ :: path) right)

def insertColor (tree : Tree Entry) : Tree Entry :=
  match locate wanted [] tree with
  | none => tree
  | some place => (insertFix place.path (.node place.colour place.left wanted place.right)).getD tree

def erase (tree : Tree Entry) : Tree Entry :=
  match locate wanted [] tree with
  | none => tree
  | some place =>
      let gap := unlink place.path place.colour place.left place.right
      gap.close.getD (plug gap.path gap.tree)

variable {wanted}

theorem locate_none (path : List (Frame Entry)) (tree : Tree Entry) :
    locate wanted path tree = none ↔ wanted ∉ tree.inorder := by
  induction tree generalizing path with
  | leaf => simp [locate, Tree.inorder]
  | node colour left entry right inLeft inRight =>
      rw [locate, Option.or_eq_none_iff, inLeft]
      by_cases same : entry = wanted
      · simp [same, Tree.inorder]
      · simp [same, Ne.symm same, inRight, Tree.inorder]

theorem locate_some {path : List (Frame Entry)} {tree : Tree Entry} {place : Place Entry}
    (found : locate wanted path tree = some place) :
    plug place.path (.node place.colour place.left wanted place.right) = plug path tree ∧
      wanted ∉ place.left.inorder ∧
      ∃ passed, before place.path = before path ++ passed ∧ wanted ∉ passed := by
  induction tree generalizing path with
  | leaf => cases found
  | node colour left entry right inLeft inRight =>
      rw [locate] at found
      rcases Option.or_eq_some_iff.mp found with there | ⟨missing, found⟩
      · obtain ⟨same, clear, passed, way, without⟩ := inLeft there
        exact ⟨same, clear, passed, by simpa [before] using way, without⟩
      · have clear := (locate_none _ _).mp missing
        split at found
        · next same =>
            cases found
            rw [← same]
            rw [← same] at clear
            exact ⟨rfl, clear, [], (List.append_nil _).symm, List.not_mem_nil⟩
        · next different =>
            obtain ⟨same, below, passed, way, without⟩ := inRight found
            refine ⟨same, below, left.inorder ++ entry :: passed, ?_, ?_⟩
            · rw [way]
              simp [before]
            · simp [clear, Ne.symm different, without]

/-- A node is found where it is, if its entry is nowhere else. -/
theorem locate_plug (path outer : List (Frame Entry)) (tree : Tree Entry)
    (first : wanted ∉ before path) (last : wanted ∉ after path) (inside : wanted ∈ tree.inorder) :
    locate wanted outer (plug path tree) = locate wanted (path ++ outer) tree := by
  induction path generalizing tree with
  | nil => rfl
  | cons frame path ih =>
      obtain ⟨side, colour, entry, sibling⟩ := frame
      have found : locate wanted (⟨side, colour, entry, sibling⟩ :: (path ++ outer)) tree ≠ none :=
        fun none => (locate_none _ _).mp none inside
      obtain ⟨place, is⟩ := Option.ne_none_iff_exists'.mp found
      cases side with
      | left =>
          rw [plug, ih]
          · simp [join, locate, is]
          · simpa [before] using first
          · simp [after] at last
            exact last.2.2
          · simp [join, Tree.inorder, inside]
      | right =>
          simp [before] at first
          obtain ⟨clear, none, different⟩ := first
          rw [plug, ih]
          · simp [join, locate, is, Ne.symm different, (locate_none _ sibling).mpr none]
          · exact clear
          · simpa [after] using last
          · simp [join, Tree.inorder, inside]

theorem locate_here {path : List (Frame Entry)} {colour : Colour} {left right : Tree Entry}
    (once : (plug path (.node colour left wanted right)).inorder.Nodup) :
    locate wanted [] (plug path (.node colour left wanted right)) =
      some ⟨path, colour, left, right⟩ := by
  rw [plug_inorder, Tree.inorder] at once
  obtain ⟨front, behind, apart⟩ := List.nodup_append.mp once
  obtain ⟨_, inner, around⟩ := List.nodup_append.mp front
  obtain ⟨_, _, inLeft⟩ := List.nodup_append.mp inner
  have clear : wanted ∉ left.inorder := fun member => inLeft _ member _ (by simp) rfl
  rw [locate_plug _ _ _ (fun member => around _ member _ (by simp) rfl)
    (fun member => apart _ (by simp) _ member rfl) (by simp [Tree.inorder]), List.append_nil,
    locate, (locate_none _ left).mpr clear, if_pos rfl]
  rfl

theorem insertColor_inorder (tree : Tree Entry) :
    (insertColor wanted tree).inorder = tree.inorder := by
  rw [insertColor]
  cases found : locate wanted [] tree with
  | none => rfl
  | some place =>
      have same := (locate_some found).1
      cases fixes : insertFix place.path (.node place.colour place.left wanted place.right) with
      | none => simp [fixes]
      | some fixed =>
          simp only [fixes, Option.getD_some]
          rw [insertFix_inorder fixes, same]
          rfl

theorem erase_inorder (tree : Tree Entry) :
    (erase wanted tree).inorder = tree.inorder.erase wanted := by
  rw [erase]
  cases found : locate wanted [] tree with
  | none => exact (List.erase_of_not_mem ((locate_none _ _).mp found)).symm
  | some place =>
      obtain ⟨same, clear, passed, way, without⟩ := locate_some found
      have whole := congrArg Tree.inorder same
      have rest := unlink_inorder place.path place.colour place.left place.right
      have front : wanted ∉ before place.path ++ place.left.inorder := by
        rw [way]
        simp [before, without, clear]
      have gone : tree.inorder.erase wanted =
          before place.path ++ (place.left.inorder ++ place.right.inorder) ++ after place.path := by
        rw [plug_inorder, Tree.inorder, plug] at whole
        rw [← whole, List.append_assoc, List.append_assoc, ← List.append_assoc,
          List.erase_append_right _ front, List.cons_append, List.erase_cons_head]
        simp
      rw [gone, ← rest]
      dsimp only
      cases closes : Gap.close (unlink place.path place.colour place.left place.right) with
      | none => rfl
      | some fixed =>
          rw [Gap.close] at closes
          split at closes
          · exact eraseFix_inorder closes
          · cases closes
            rfl

def rebalancing : Rebalancing Entry where
  insertColor := fun entry tree => insertColor entry tree
  erase := fun entry tree => erase entry tree
  insert_inorder := fun _ tree => insertColor_inorder tree
  erase_inorder := fun _ tree => erase_inorder tree

theorem insertColor_here {path : List (Frame Entry)} {fixed : Tree Entry}
    (once : (plug path (.node .red .leaf wanted .leaf)).inorder.Nodup)
    (fixes : insertFix path (.node .red .leaf wanted .leaf) = some fixed) :
    insertColor wanted (plug path (.node .red .leaf wanted .leaf)) = fixed := by
  rw [insertColor, locate_here once]
  exact (congrArg (Option.getD · _) fixes).trans rfl

theorem erase_here {path : List (Frame Entry)} {colour : Colour} {left right fixed : Tree Entry}
    (once : (plug path (.node colour left wanted right)).inorder.Nodup)
    (closes : (unlink path colour left right).close = some fixed) :
    erase wanted (plug path (.node colour left wanted right)) = fixed := by
  rw [erase, locate_here once]
  exact (congrArg (Option.getD · _) closes).trans rfl

end Located

end VirtioDisk.SearchTree.RedBlackTree
