import Mathlib.Algebra.Group.Nat.Defs
import Mathlib.Data.Nat.Log
import VirtioDisk.RedBlackTree

/-!
The colours of a red-black tree and what a step may break: a red node under a red
parent while one is inserted, a black node too few while one is taken out. Each step
mends it or moves it up the way.
-/

namespace VirtioDisk.SearchTree.RedBlackTree

open SearchTree.Tree (join)

variable {Entry : Type}

/-- No red node has a red child, and `height` black nodes are on every way down. -/
def RedBlack : Nat → Tree Entry → Prop
  | height, .leaf => height = 0
  | height, .node .red left _ right =>
      left.colour = .black ∧ right.colour = .black ∧ RedBlack height left ∧ RedBlack height right
  | height, .node .black left _ right =>
      ∃ below, height = below + 1 ∧ RedBlack below left ∧ RedBlack below right

/-- The colour over the hole; the root must be black, as a child of a red node. -/
def above : List (Frame Entry) → Colour
  | [] => .red
  | frame :: _ => frame.colour

def grown (colour : Colour) (height : Nat) : Nat :=
  if colour = .red then height else height + 1

/-- A tree of this black height fits into the hole. -/
def Fits : Nat → List (Frame Entry) → Prop
  | _, [] => True
  | height, frame :: path =>
      RedBlack height frame.sibling ∧
        (frame.colour = .red → frame.sibling.colour = .black ∧ above path = .black) ∧
        Fits (grown frame.colour height) path

/-- The five properties of a red-black tree. -/
def Balanced (tree : Tree Entry) : Prop :=
  tree.colour = .black ∧ ∃ height, RedBlack height tree

section Colours
variable {height : Nat} {side : Side} {near far tree : Tree Entry} {entry : Entry}
  {path : List (Frame Entry)}

theorem not_red {colour : Colour} : colour ≠ .red ↔ colour = .black := by
  cases colour <;> decide

theorem not_black {colour : Colour} : colour ≠ .black ↔ colour = .red := by
  cases colour <;> decide

@[simp] theorem redBlack_red : RedBlack height (join side .red near entry far) ↔
    near.colour = .black ∧ far.colour = .black ∧ RedBlack height near ∧ RedBlack height far := by
  cases side
  · rfl
  · constructor
    all_goals
      rintro ⟨first, second, one, two⟩
      exact ⟨second, first, two, one⟩

@[simp] theorem redBlack_black : RedBlack (height + 1) (join side .black near entry far) ↔
    RedBlack height near ∧ RedBlack height far := by
  cases side <;> simp [join, RedBlack, and_comm]

theorem redBlack_join {colour : Colour} :
    RedBlack (grown colour height) (join side colour near entry far) ↔
    (colour = .red → near.colour = .black ∧ far.colour = .black) ∧
      RedBlack height near ∧ RedBlack height far := by
  cases colour <;> simp [grown, and_assoc]

/-- A black node has a height. -/
theorem black_height (shape : RedBlack height (join side .black near entry far)) :
    ∃ below, height = below + 1 := by
  cases side <;> exact shape.imp fun _ parts => parts.1

theorem top_of_height (shape : RedBlack (height + 1) tree) (side : Side) :
    ∃ colour near entry far, tree = join side colour near entry far := by
  obtain rfl | opened := tree.from_side side
  · cases shape
  · exact opened

theorem recolour_black (black : tree.colour = .black) : tree.recolour .black = tree := by
  cases tree with
  | leaf => rfl
  | node => exact congrArg (Tree.node · _ _ _) black.symm

theorem redBlack_recolour (shape : RedBlack height tree) (red : tree.colour = .red) :
    RedBlack (height + 1) (tree.recolour .black) := by
  cases tree with
  | leaf => cases red
  | node colour left entry right =>
      cases red
      exact ⟨height, rfl, shape.2.2.1, shape.2.2.2⟩

theorem plug_balanced : Balanced (plug path tree) ↔
    ∃ height, RedBlack height tree ∧ (tree.colour = .red → above path = .black) ∧
      Fits height path := by
  -- A red frame asks for black on both its ends, a black one for one unit of height.
  induction path generalizing tree with
  | nil => simp [plug, Balanced, above, Fits, ← not_red, and_comm]
  | cons frame path ih =>
      obtain ⟨side, colour, entry, sibling⟩ := frame
      rw [plug, ih]
      cases colour with
      | red =>
          constructor
          · rintro ⟨height, shape, upper, fits⟩
            obtain ⟨black, other, near, far⟩ := redBlack_red.mp shape
            refine ⟨height, near, fun red => absurd (red.symm.trans black) (by decide), far,
              fun _ => ⟨other, upper (Tree.colour_join ..)⟩, fits⟩
          · rintro ⟨height, near, upper, far, shaded, fits⟩
            obtain ⟨other, top⟩ := shaded rfl
            have black : tree.colour = .black :=
              not_red.mp fun red => absurd (upper red) (by simp [above])
            exact ⟨height, redBlack_red.mpr ⟨black, other, near, far⟩, fun _ => top, fits⟩
      | black =>
          constructor
          · rintro ⟨height, shape, upper, fits⟩
            obtain ⟨below, rfl⟩ := black_height shape
            obtain ⟨near, far⟩ := redBlack_black.mp shape
            exact ⟨below, near, fun _ => rfl, far, by simp, fits⟩
          · rintro ⟨height, near, _, far, _, fits⟩
            exact ⟨height + 1, redBlack_black.mpr ⟨near, far⟩,
              by simp, fits⟩

theorem rotated_balanced {grand parent : Frame Entry}
    (shape : RedBlack height tree) (red : tree.colour = .red) (redParent : parent.colour = .red)
    (uncle : grand.sibling.colour = .black) (fits : Fits height (parent :: grand :: path)) :
    ∃ turned, rotated grand parent tree = some turned ∧ Balanced (plug path turned) := by
  obtain ⟨side, colour, top, sibling⟩ := grand
  obtain ⟨inner, shade, entry, brother⟩ := parent
  cases redParent
  obtain ⟨beside, shaded, aside, _, fits⟩ := fits
  obtain ⟨black, upper⟩ := shaded rfl
  cases upper
  have raised (near far : Tree Entry) (entry : Entry) (one : RedBlack height near)
      (two : RedBlack height far) : Balanced (plug path (join side .black near entry far)) :=
    plug_balanced.mpr ⟨height + 1, redBlack_black.mpr ⟨one, two⟩, by simp, fits⟩
  simp only [rotated]
  -- Either way three nodes become a black one over two red ones.
  split
  · refine ⟨_, rfl, raised _ _ _ shape (redBlack_red.mpr ?_)⟩
    rw [recolour_black black]
    exact ⟨black, uncle, beside, aside⟩
  · obtain rfl | ⟨tint, near, middle, far, rfl⟩ := tree.from_side side
    · cases red
    · obtain rfl := (Tree.colour_join ..).symm.trans red
      obtain ⟨one, two, left, right⟩ := redBlack_red.mp shape
      rw [Tree.top_join, Tree.child_join, Tree.child_other_join, recolour_black one,
        recolour_black two]
      exact ⟨_, rfl, raised _ _ _ (redBlack_red.mpr ⟨black, one, beside, left⟩)
        (redBlack_red.mpr ⟨two, uncle, right, aside⟩)⟩

theorem insertFix_balanced (shape : RedBlack height tree) (red : tree.colour = .red)
    (fits : Fits height path) : ∃ fixed, insertFix path tree = some fixed ∧ Balanced fixed := by
  induction path, tree using insertFix.induct generalizing height with
  | case1 tree =>
      refine ⟨_, rfl, ?_, height + 1, redBlack_recolour shape red⟩
      cases tree <;> rfl
  | case2 parent tree done =>
      rw [insertFix, if_pos done]
      exact ⟨_, rfl, plug_balanced.mpr ⟨height, shape, fun _ => done, fits⟩⟩
  | case3 parent tree redParent =>
      obtain ⟨_, upper⟩ := fits.2.1 (not_black.mp redParent)
      cases upper
  | case4 parent grand path tree done =>
      rw [insertFix, if_pos done]
      exact ⟨_, rfl, plug_balanced.mpr ⟨height, shape, fun _ => done, fits⟩⟩
  | case5 parent grand path tree redParent flips ih =>
      rw [insertFix, if_neg redParent, if_pos flips]
      obtain ⟨side, colour, top, sibling⟩ := grand
      obtain ⟨inner, shade, entry, brother⟩ := parent
      obtain rfl := not_black.mp redParent
      obtain ⟨beside, shaded, aside, _, fits⟩ := fits
      obtain ⟨_, upper⟩ := shaded rfl
      cases upper
      have flipped : (sibling.recolour .black).colour = .black := by
        cases sibling <;> rfl
      -- The grandparent is red now: the same question two frames further up.
      exact ih (redBlack_red.mpr ⟨Tree.colour_join .., flipped, redBlack_black.mpr ⟨shape, beside⟩,
        redBlack_recolour aside flips⟩) (Tree.colour_join ..) fits
  | case6 parent grand path tree redParent turns =>
      rw [insertFix, if_neg redParent, if_neg turns]
      obtain ⟨turned, is, balanced⟩ :=
        rotated_balanced shape red (not_black.mp redParent) (not_red.mp turns) fits
      rw [is]
      exact ⟨_, rfl, balanced⟩

theorem settle_red {parent : Entry} {sibling : Tree Entry} {turn : Tree Entry × Bool}
    (settles : settle side .red parent tree sibling = some turn) : turn.2 = true := by
  obtain ⟨entry, _, settles⟩ := Option.bind_eq_some_iff.mp settles
  simp only at settles
  split at settles
  · cases settles
    rfl
  · split at settles
    · obtain ⟨middle, _, rfl⟩ := Option.map_eq_some_iff.mp settles
      rfl
    · cases settles
      rfl

/-- What a turn at a parent of this colour leaves in its place. -/
def Turned (colour : Colour) (height : Nat) (turn : Tree Entry × Bool) : Prop :=
  if turn.2 then RedBlack (grown colour height) turn.1 ∧ (turn.1.colour = .red → colour = .red)
  else colour = .black ∧ RedBlack height turn.1 ∧ turn.1.colour = .black

theorem settle_balanced (side : Side) (parent : Entry) (colour : Colour) {sibling : Tree Entry}
    (shape : RedBlack height tree) (beside : RedBlack (height + 1) sibling)
    (black : sibling.colour = .black) :
    ∃ turn, settle side colour parent tree sibling = some turn ∧
      Turned colour (height + 1) turn := by
  obtain ⟨shade, inner, entry, outer, rfl⟩ := top_of_height beside side
  obtain rfl := (Tree.colour_join ..).symm.trans black
  obtain ⟨inside, outside⟩ := redBlack_black.mp beside
  simp only [settle, Tree.top_join, Option.bind_some, Tree.child_join, Tree.child_other_join]
  by_cases far : outer.colour = .red
  · rw [if_pos far]
    refine ⟨_, rfl, redBlack_join.mpr ⟨fun _ => ⟨Tree.colour_join .., ?_⟩,
      redBlack_black.mpr ⟨shape, inside⟩, redBlack_recolour outside far⟩, by simp⟩
    cases outer <;> rfl
  rw [if_neg far]
  by_cases close : inner.colour = .red
  · rw [if_pos close]
    obtain rfl | ⟨tint, near, middle, beyond, rfl⟩ := inner.from_side side
    · cases close
    obtain rfl := (Tree.colour_join ..).symm.trans close
    obtain ⟨one, two, left, right⟩ := redBlack_red.mp inside
    rw [Tree.top_join, Tree.child_join, Tree.child_other_join, recolour_black two]
    exact ⟨_, rfl, redBlack_join.mpr ⟨fun _ => ⟨Tree.colour_join .., Tree.colour_join ..⟩,
      redBlack_black.mpr ⟨shape, left⟩, redBlack_black.mpr ⟨right, outside⟩⟩, by simp⟩
  · rw [if_neg close]
    have whole (parent : Entry) :
        RedBlack (height + 1) (join side .black tree parent (join side .red inner entry outer)) :=
      redBlack_black.mpr
        ⟨shape, redBlack_red.mpr ⟨not_red.mp close, not_red.mp far, inside, outside⟩⟩
    refine ⟨_, rfl, ?_⟩
    cases colour with
    | red => exact ⟨whole parent, by simp⟩
    | black => exact ⟨rfl, whole parent, Tree.colour_join ..⟩

theorem eraseTurn_balanced {frame : Frame Entry} (shape : RedBlack height tree)
    (fits : Fits (height + 1) (frame :: path)) :
    ∃ turn, eraseTurn frame tree = some turn ∧ Turned frame.colour (height + 1) turn := by
  obtain ⟨side, colour, parent, sibling⟩ := frame
  obtain ⟨beside, shaded, _⟩ := fits
  simp only [eraseTurn]
  by_cases red : sibling.colour = .red
  · rw [if_pos red]
    -- The children of a red sibling are black, and the inner one is the next sibling.
    obtain ⟨shade, inner, entry, outer, rfl⟩ := top_of_height beside side
    obtain rfl := (Tree.colour_join ..).symm.trans red
    obtain rfl : colour = .black := not_red.mp fun same => by simpa using (shaded same).1
    obtain ⟨one, two, inside, outside⟩ := redBlack_red.mp beside
    rw [Tree.top_join, Tree.child_join, Tree.child_other_join, recolour_black one]
    obtain ⟨lower, settles, turned⟩ :=
      settle_balanced side parent .red shape inside one
    have done := settle_red settles
    rw [settles]
    refine ⟨_, rfl, ?_⟩
    simp only [Turned, done, if_true, grown] at turned ⊢
    exact ⟨redBlack_black.mpr ⟨turned.1, outside⟩, by simp⟩
  · rw [if_neg red]
    exact settle_balanced side parent colour shape beside (not_red.mp red)

theorem eraseFix_balanced (shape : RedBlack height tree) (black : tree.colour = .black)
    (fits : Fits (height + 1) path) :
    ∃ fixed, eraseFix path tree = some fixed ∧ Balanced fixed := by
  induction path generalizing tree height with
  | nil => exact ⟨tree, rfl, black, height, shape⟩
  | cons frame path ih =>
      obtain ⟨turn, turns, turned⟩ := eraseTurn_balanced shape fits
      obtain ⟨_, shaded, fits⟩ := fits
      simp only [eraseFix, turns, Option.bind_some]
      -- What a turn does not end is a whole black tree, too low by one below its frame.
      by_cases done : turn.2
      · rw [if_pos done]
        rw [Turned, if_pos done] at turned
        exact ⟨_, rfl, plug_balanced.mpr ⟨_, turned.1,
          fun red => (shaded (turned.2 red)).2, fits⟩⟩
      · rw [if_neg done]
        rw [Turned, if_neg done] at turned
        obtain ⟨parent, whole, shade⟩ := turned
        rw [parent] at fits
        exact ih whole shade fits

theorem leaf_of_zero (shape : RedBlack 0 tree) (black : tree.colour = .black) : tree = .leaf := by
  cases tree with
  | leaf => rfl
  | node colour left entry right =>
      cases black
      obtain ⟨below, same, _⟩ := shape
      cases same

/-- A node without a subtree on one side is taken out. -/
theorem splice_balanced (side : Side) (colour : Colour)
    (balanced : Balanced (plug path (join side colour .leaf entry tree))) :
    ∃ fixed, Gap.close ⟨path, tree.recolour .black, tree.top.isNone && colour = .black⟩ =
      some fixed ∧ Balanced fixed ∧ (colour = .red → tree = .leaf) := by
  obtain ⟨height, shape, upper, fits⟩ := plug_balanced.mp balanced
  rw [Tree.colour_join] at upper
  -- Beside the leaf there is a leaf or, if the node is black, a red node to fill the gap.
  cases colour with
  | red =>
      obtain ⟨_, black, zero, other⟩ := redBlack_red.mp shape
      cases zero
      obtain rfl := leaf_of_zero other black
      exact ⟨_, rfl, plug_balanced.mpr ⟨0, rfl, by simp [Tree.colour, Tree.recolour], fits⟩,
        fun _ => rfl⟩
  | black =>
      obtain ⟨below, rfl⟩ := black_height shape
      obtain ⟨zero, other⟩ := redBlack_black.mp shape
      cases zero
      cases tree with
      | leaf =>
          obtain ⟨fixed, fixes, whole⟩ := @eraseFix_balanced _ _ .leaf _ other rfl fits
          exact ⟨fixed, fixes, whole, by simp⟩
      | node shade left entry right =>
          have red : shade = .red := not_black.mp fun same => by
            cases leaf_of_zero other same
          exact ⟨_, rfl, plug_balanced.mpr ⟨1, redBlack_recolour other red,
            by simp [Tree.colour, Tree.recolour], fits⟩, by simp⟩

theorem balanced_entry (frames : List (Frame Entry)) (side : Side) (colour : Colour)
    (one two : Entry) (sibling : Tree Entry) :
    Balanced (plug (frames ++ ⟨side, colour, one, sibling⟩ :: path) tree) ↔
      Balanced (plug (frames ++ ⟨side, colour, two, sibling⟩ :: path) tree) := by
  have upper (frames : List (Frame Entry)) :
      above (frames ++ ⟨side, colour, one, sibling⟩ :: path) =
        above (frames ++ ⟨side, colour, two, sibling⟩ :: path) := by
    cases frames <;> rfl
  have fits (height : Nat) : Fits height (frames ++ ⟨side, colour, one, sibling⟩ :: path) ↔
      Fits height (frames ++ ⟨side, colour, two, sibling⟩ :: path) := by
    induction frames generalizing height with
    | nil => rfl
    | cons frame frames ih => simp only [List.cons_append, Fits, ih, upper]
  simp only [plug_balanced, upper, fits]

theorem unlink_balanced {colour : Colour} {left right : Tree Entry}
    (balanced : Balanced (plug path (.node colour left entry right))) :
    ∃ fixed, (unlink path colour left right).close = some fixed ∧ Balanced fixed := by
  cases left with
  | leaf =>
      obtain ⟨fixed, fixes, whole, only⟩ := splice_balanced .left colour balanced
      have same : right.recolour colour = right.recolour .black := by
        cases colour with
        | red =>
            rw [only rfl]
            rfl
        | black => rfl
      exact ⟨fixed, by rw [unlink, same, fixes], whole⟩
  | node shade low root high =>
      cases right with
      | leaf =>
          obtain ⟨fixed, fixes, whole, only⟩ := splice_balanced .right colour balanced
          have black : colour = .black := not_red.mp fun red => by cases only red
          subst black
          exact ⟨fixed, fixes, whole⟩
      | node below lower top right =>
          have opened := leftmost_plug [] below lower top right
          rw [unlink]
          generalize leftmost [] below lower top right = found at opened ⊢
          obtain ⟨frames, taken, successor, rest⟩ := found
          have same : plug path (.node colour (.node shade low root high) entry
              (.node below lower top right)) =
              plug (frames ++ ⟨.right, colour, entry, .node shade low root high⟩ :: path)
                (join .left taken .leaf successor rest) := by
            rw [plug_append]
            exact congrArg (plug path) (congrArg (Tree.node colour _ entry) opened.symm)
          -- The successor stands where the node stood, and no colour has changed by that.
          rw [same, balanced_entry frames .right colour entry successor] at balanced
          obtain ⟨fixed, fixes, whole, _⟩ := splice_balanced .left _ balanced
          exact ⟨fixed, fixes, whole⟩

/-! The height. -/

def depth : Tree Entry → Nat
  | .leaf => 0
  | .node _ left _ right => max (depth left) (depth right) + 1

theorem RedBlack.size (shape : RedBlack height tree) : 2 ^ height ≤ tree.inorder.length + 1 := by
  induction tree generalizing height with
  | leaf =>
      cases shape
      simp
  | node colour left entry right inLeft inRight =>
      rw [Tree.inorder, List.length_append, List.length_cons]
      cases colour with
      | red =>
          obtain ⟨_, _, one, _⟩ := shape
          have := inLeft one
          omega
      | black =>
          obtain ⟨below, rfl, one, two⟩ := shape
          have first := inLeft one
          have second := inRight two
          rw [Nat.pow_succ]
          omega

theorem RedBlack.depth (shape : RedBlack height tree) :
    depth tree ≤ 2 * height + if tree.colour = .red then 1 else 0 := by
  induction tree generalizing height with
  | leaf => exact Nat.zero_le _
  | node colour left entry right inLeft inRight =>
      cases colour with
      | red =>
          obtain ⟨black, other, one, two⟩ := shape
          have first := inLeft one
          have second := inRight two
          rw [if_neg (by rw [black]; decide)] at first
          rw [if_neg (by rw [other]; decide)] at second
          simp only [depth, Tree.colour, if_true]
          omega
      | black =>
          obtain ⟨below, rfl, one, two⟩ := shape
          have first := inLeft one
          have second := inRight two
          simp only [depth, Tree.colour]
          split at first <;> split at second <;> simp <;> omega

theorem depth_plug (path : List (Frame Entry)) (tree : Tree Entry) :
    depth tree + path.length ≤ depth (plug path tree) := by
  induction path generalizing tree with
  | nil => exact Nat.le_refl _
  | cons frame path ih =>
      refine Nat.le_trans ?_ (ih _)
      obtain ⟨side, colour, entry, sibling⟩ := frame
      cases side with
      | left =>
          simp only [join, depth, List.length_cons]
          omega
      | right =>
          simp only [join, depth, List.length_cons]
          omega

theorem balanced_depth (balanced : Balanced tree) :
    depth tree ≤ 2 * Nat.log 2 (tree.inorder.length + 1) := by
  obtain ⟨black, height, shape⟩ := balanced
  have deep := shape.depth
  rw [if_neg (by rw [black]; decide)] at deep
  have wide := Nat.le_log_of_pow_le (by decide) shape.size
  omega

/-- A new node is red and has no children. -/
theorem insert_balanced {path : List (Frame Entry)} (entry : Entry)
    (balanced : Balanced (plug path .leaf)) :
    ∃ fixed, insertFix path (.node .red .leaf entry .leaf) = some fixed ∧ Balanced fixed := by
  obtain ⟨height, shape, _, fits⟩ := plug_balanced.mp balanced
  cases shape
  exact insertFix_balanced ⟨rfl, rfl, rfl, rfl⟩ rfl fits

theorem erase_balanced [DecidableEq Entry] (wanted : Entry) (balanced : Balanced tree) :
    Balanced (erase wanted tree) := by
  rw [erase]
  cases found : locate wanted [] tree with
  | none => exact balanced
  | some place =>
      have same := (locate_some found).1
      rw [plug] at same
      rw [← same] at balanced
      obtain ⟨fixed, closes, whole⟩ := unlink_balanced balanced
      simp only [closes, Option.getD_some]
      exact whole

end Colours

end VirtioDisk.SearchTree.RedBlackTree
