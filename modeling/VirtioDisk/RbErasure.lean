import VirtioDisk.RbInsertion

/-!
`rb_erase`: the node is taken out, and what is missing then is made up for. Again the
writes to memory make the tree that the steps on trees make.
-/

namespace VirtioDisk.SearchTree.RbTree

open RedBlackTree
open SearchTree.Tree (join)

variable {Entry : Type}

theorem other_other (side : Side) : side.other.other = side := by
  cases side <;> rfl

theorem apart_outer {p s : Entry} {tree inner outer rest : List Entry}
    (once : (tree ++ p :: (inner ++ s :: outer ++ rest)).Nodup) :
    (s :: p :: (inner ++ (outer ++ rest))).Nodup ∧ (p :: (inner ++ s :: outer)).Nodup ∧
      (∀ q ∈ tree, q ∉ s :: p :: (inner ++ (outer ++ rest))) ∧
      ∀ q ∈ tree ++ rest, q ∉ p :: (inner ++ s :: outer) := by
  simp only [List.nodup_append, List.nodup_cons, List.mem_cons, List.mem_append] at once ⊢
  refine ⟨?_, ?_, ?_, ?_⟩ <;> grind

theorem apart_middle {p s i : Entry} {tree next far outer rest : List Entry}
    (once : (tree ++ p :: (next ++ i :: far ++ s :: outer ++ rest)).Nodup) :
    (i :: s :: p :: far).Nodup ∧ (i :: p :: (next ++ (far ++ s :: outer ++ rest))).Nodup ∧
      (∀ q ∈ tree ++ next ++ outer ++ rest, q ∉ i :: s :: p :: far) ∧
      ∀ q ∈ tree, q ∉ i :: p :: (next ++ (far ++ s :: outer ++ rest)) := by
  simp only [List.nodup_append, List.nodup_cons, List.mem_cons, List.mem_append] at once ⊢
  refine ⟨?_, ?_, ?_, ?_⟩ <;> grind

theorem apart_red {p s : Entry} {tree inner outer rest : List Entry}
    (once : (tree ++ p :: (inner ++ s :: outer ++ rest)).Nodup) :
    (s :: p :: (inner ++ rest)).Nodup ∧ ∀ q ∈ tree ++ outer, q ∉ s :: p :: (inner ++ rest) := by
  simp only [List.nodup_append, List.nodup_cons, List.mem_cons, List.mem_append] at once ⊢
  refine ⟨?_, ?_⟩ <;> grind

/-- The nodes of a turn, those of the sibling in any order. -/
theorem apart_sibling {m : Memory Entry} {side : Side} {colour : Colour} {p : Entry}
    {path : List (Frame Entry)} {tree sibling : Tree Entry} {spread : List Entry}
    (zipped : Zipped m (⟨side, colour, p, sibling⟩ :: path) tree)
    (order : sibling.inorder.Perm spread) :
    (tree.inorder ++ p :: (spread ++ entries path)).Nodup := by
  have moved := ((order.append_right (entries path)).cons p).append_left tree.inorder
  exact moved.nodup_iff.mp zipped.apart

theorem red_inorder (side : Side) (colour : Colour) (path : List (Frame Entry)) (p s : Entry)
    (tree inner outer : Tree Entry) :
    (plug (⟨side, .red, p, inner.recolour .black⟩ :: ⟨side, colour, s, outer⟩ :: path)
      tree).inorder =
      (plug (⟨side, colour, p, join side .red inner s outer⟩ :: path) tree).inorder :=
  plug_same_inorder path ((join_same_inorder side colour colour s
    (join_same_inorder side .red .red p rfl (inner.inorder_recolour .black)) rfl).trans
    (rotation_inorder ..).symm)

theorem away_sibling {side : Side} {colour tint : Colour} {path : List (Frame Entry)}
    {tree inner outer : Tree Entry} {p s q : Entry} :
    q ∉ (plug (⟨side, colour, p, join side tint inner s outer⟩ :: path) tree).inorder ↔
      q ∉ tree.inorder ∧ q ≠ p ∧ q ∉ inner.inorder ∧ q ≠ s ∧ q ∉ outer.inorder ∧
        q ∉ entries path := by
  simp only [mem_plug, entries, mem_join, List.mem_cons, List.mem_append, not_or, and_assoc]

theorem eraseTurn_sibling {frame : Frame Entry} {tree : Tree Entry} {turn : Tree Entry × Bool}
    (turned : eraseTurn frame tree = some turn) :
    frame.sibling.top ≠ none := by
  intro empty
  simp [eraseTurn, settle, empty] at turned

variable [DecidableEq Entry] {m : Memory Entry} {side : Side} {path : List (Frame Entry)}
  {p s : Entry} {colour shade : Colour}

/-- Case 1: the red sibling `s` comes up over the parent `p`, as in the last case of an
insertion. -/
theorem eraseRed_spec {beside : Option Entry} {near far : Option Entry} {inner : Tree Entry}
    (atParent : m.node p = some (cell side (parentOf path) colour near (some s)))
    (atSibling : m.node s = some (cell side beside shade inner.top far))
    (holds : Holds m (some s) inner) (there : inner.top ≠ none) (way : HeldPath m path (some p))
    (once : (s :: p :: (inner.inorder ++ entries path)).Nodup) :
    ∃ after, eraseRed m side (some p) (some s) = some (after, inner.top) ∧
      after.node s = some (cell side (parentOf path) colour (some p) far) ∧
      after.node p = some (cell side (some s) .red near inner.top) ∧
      Holds after (some p) (inner.recolour .black) ∧ HeldPath after path (some s) ∧
      ∀ q ∉ s :: p :: (inner.inorder ++ entries path), after.node q = m.node q := by
  obtain ⟨after, rotates, isS, isP, held, passed, frame⟩ :=
    insertOuter_spec (atSibling.trans (congrArg some (cell_other side ..).symm))
      (atParent.trans (congrArg some (cell_other ..).symm)) holds way once
  rw [cell_other] at isS isP
  refine ⟨after, ?_, isS, isP, held, passed, frame⟩
  -- An insertion adopts the inner child only if there is one; here there always is.
  have adopts : ∀ m : Memory Entry, adopt m inner.top (some p) =
      rbSetParentColor m inner.top (some p) .black := fun _ =>
    if_pos (Option.isSome_iff_ne_none.mpr there)
  simp only [insertOuter, other_other, adopts, bind] at rotates
  simp only [eraseRed, bind, Memory.deref, atSibling, Option.bind_some, cell_child]
  simp only [← Option.bind_assoc] at rotates ⊢
  rw [rotates, Option.bind_some]

/-- Case 4: `s` comes up over `p`, and its outer child is black. -/
theorem eraseOuter_spec {stale one two : Option Entry} {near : Option Entry}
    {inner outer : Tree Entry}
    (atParent : m.node p = some (cell side (parentOf path) colour near (some s)))
    (atSibling : m.node s = some (cell side stale shade inner.top outer.top))
    (inside : Holds m one inner) (outside : Holds m two outer) (there : outer.top ≠ none)
    (way : HeldPath m path (some p))
    (once : (s :: p :: (inner.inorder ++ (outer.inorder ++ entries path))).Nodup) :
    ∃ after, eraseOuter m side (some p) (some s) outer.top = some after ∧
      after.node s = some (cell side (parentOf path) colour (some p) outer.top) ∧
      after.node p = some (cell side (some s) .black near inner.top) ∧
      Holds after (some p) inner ∧ Holds after (some s) (outer.recolour .black) ∧
      HeldPath after path (some s) ∧
      ∀ q ∉ s :: p :: (inner.inorder ++ (outer.inorder ++ entries path)),
        after.node q = m.node q := by
  obtain ⟨awayS, rest⟩ := List.nodup_cons.mp once
  obtain ⟨awayP, rest⟩ := List.nodup_cons.mp rest
  obtain ⟨singleInner, rest, apartInner⟩ := List.nodup_append.mp rest
  obtain ⟨singleOuter, once', apartOuter⟩ := List.nodup_append.mp rest
  simp only [List.mem_cons, List.mem_append, not_or] at awayS awayP
  obtain ⟨different, sInner, sOuter, sPath⟩ := awayS
  obtain ⟨pInner, pOuter, pPath⟩ := awayP
  have across {q : Entry} (member : q ∈ outer.inorder) : q ∉ inner.inorder := fun other =>
    apartInner q other q (by simp [member]) rfl
  have alongInner {q : Entry} (member : q ∈ entries path) : q ∉ inner.inorder := fun other =>
    apartInner q other q (by simp [member]) rfl
  have alongOuter {q : Entry} (member : q ∈ entries path) : q ∉ outer.inorder := fun other =>
    apartOuter q other q member rfl
  -- The writes in the order of the source, the rotation of the parents last.
  let first := m.put p (cell side (parentOf path) colour near inner.top)
  let second := first.put s (cell side stale shade (some p) outer.top)
  have lowered : m.setChild (some p) side.other inner.top = some first := by
    rw [Memory.setChild, write_some atParent, cell_setChild_other]
  have raised : first.setChild (some s) side (some p) = some second := by
    rw [Memory.setChild, write_some ((put_other different).trans atSibling), cell_setChild]
  obtain ⟨third, blackens, heldOuter, root, frame⟩ :=
    setParentColor_tree (some s) .black
      (@Holds.frame _ _ second _ _ outside fun q member =>
        (put_away member sOuter).trans (put_away member pOuter)) singleOuter there
  have insideThird : Holds third one inner := inside.frame fun q member => by
    rw [frame q fun other => across other member, put_away member sInner, put_away member pInner]
  obtain ⟨fourth, moves, heldInner, root', frame'⟩ :=
    carry_tree (some p) insideThird singleInner
  have passed : HeldPath fourth path (some p) :=
    way.frame (root'.trans root) fun q member => by
      rw [frame' q (alongInner member), frame q (alongOuter member), put_away member sPath,
        put_away member pPath]
  have atS : fourth.node s = some (cell side stale shade (some p) outer.top) := by
    rw [frame' s sInner, frame s sOuter]
    exact put_same
  have atP : fourth.node p = some (cell side (parentOf path) colour near inner.top) := by
    rw [frame' p pInner, frame p pOuter, put_other (Ne.symm different)]
    exact put_same
  obtain ⟨after, turns, isS, isP, way, last⟩ := rotateSetParents_spec .black atS atP
    passed (by simp [different, sPath, pPath, once'])
  have apart {others : List Entry} (inS : s ∉ others) (inP : p ∉ others)
      (beside : ∀ q ∈ entries path, q ∉ others) {q : Entry} (member : q ∈ others) :
      q ∉ s :: p :: entries path := by
    simp only [List.mem_cons, not_or]
    exact ⟨fun same => inS (same ▸ member), fun same => inP (same ▸ member),
      fun other => beside q other member⟩
  refine ⟨after, ?_, isS, isP, heldInner.frame fun q member => ?_,
    (heldOuter.frame fun q member => frame' q ?_).frame fun q member => ?_, way, ?_⟩
  · simp only [eraseOuter, bind, Memory.deref, atSibling, Option.bind_some, cell_child, lowered,
      raised, blackens, moves, turns]
  · exact last q (apart sInner pInner (fun _ => alongInner) member)
  · rw [Tree.inorder_recolour] at member
    exact across member
  · rw [Tree.inorder_recolour] at member
    exact last q (apart sOuter pOuter (fun _ => alongOuter) member)
  · intro q away
    simp only [List.mem_cons, List.mem_append, not_or] at away
    obtain ⟨notS, notP, notInner, notOuter, notPath⟩ := away
    rw [last q (by simp [notS, notP, notPath]), frame' q notInner, frame q notOuter,
      put_other notS, put_other notP]

/-- Case 3: the inner child `i` of the sibling comes up over it, still with its old
parent and colour. -/
theorem eraseInner_spec {i : Entry} {up upper : Option Entry} {tint hue : Colour}
    {near out next : Option Entry} {far : Tree Entry}
    (atInner : m.node i = some (cell side upper tint next far.top))
    (atSibling : m.node s = some (cell side up shade (some i) out))
    (atParent : m.node p = some (cell side (parentOf path) hue near (some s)))
    (holds : Holds m (some i) far) (once : (i :: s :: p :: far.inorder).Nodup) :
    ∃ after, eraseInner m side (some p) (some s) (some i) = some after ∧
      after.node i = some (cell side upper tint next (some s)) ∧
      after.node s = some (cell side up shade far.top out) ∧
      after.node p = some (cell side (parentOf path) hue near (some i)) ∧
      Holds after (some s) (far.recolour .black) ∧ after.root = m.root ∧
      ∀ q ∉ i :: s :: p :: far.inorder, after.node q = m.node q := by
  obtain ⟨awayI, rest⟩ := List.nodup_cons.mp once
  obtain ⟨awayS, rest⟩ := List.nodup_cons.mp rest
  obtain ⟨pFar, single⟩ := List.nodup_cons.mp rest
  simp only [List.mem_cons, not_or] at awayI awayS
  obtain ⟨iS, iP, iFar⟩ := awayI
  obtain ⟨sP, sFar⟩ := awayS
  -- Only the pointers down change, and what is adopted: case 4 sets the other parents.
  let first := m.put s (cell side up shade far.top out)
  let second := first.put i (cell side upper tint next (some s))
  let third := second.put p (cell side (parentOf path) hue near (some i))
  have lowered : m.setChild (some s) side far.top = some first := by
    rw [Memory.setChild, write_some atSibling, cell_setChild]
  have raised : first.setChild (some i) side.other (some s) = some second := by
    rw [Memory.setChild, write_some ((put_other iS).trans atInner), cell_setChild_other]
  have linked : second.setChild (some p) side.other (some i) = some third := by
    rw [Memory.setChild, write_some ((put_other (Ne.symm iP)).trans
      ((put_other (Ne.symm sP)).trans atParent)), cell_setChild_other]
  obtain ⟨after, adopts, held, root, frame⟩ := adopt_tree (some s)
    (@Holds.frame _ _ third _ _ holds fun q member => (put_away member pFar).trans
      ((put_away member iFar).trans (put_away member sFar))) single
  refine ⟨after, ?_, ?_, ?_, ?_, held, root, ?_⟩
  · simp only [eraseInner, bind, Memory.deref, atInner, Option.bind_some, cell_child_other,
      lowered, raised, linked, adopts]
  · rw [frame i iFar, put_other iP]
    exact put_same
  · rw [frame s sFar, put_other sP, put_other (Ne.symm iS)]
    exact put_same
  · exact (frame p pFar).trans put_same
  · intro q away
    simp only [List.mem_cons, not_or] at away
    obtain ⟨notI, notS, notP, notFar⟩ := away
    rw [frame q notFar, put_other notP, put_other notI, put_other notS]

theorem eraseFlip_spec {near : Option Entry} {sibling : Tree Entry} {up : Option Entry}
    (atParent : m.node p = some (cell side up colour near sibling.top))
    (holds : Holds m (some p) sibling) (there : sibling.top ≠ none)
    (once : (p :: sibling.inorder).Nodup) :
    ∃ after, eraseFlip m (some p) sibling.top = some (after, if colour = .red then none else up) ∧
      after.node p = some (cell side up .black near sibling.top) ∧
      Holds after (some p) (sibling.recolour .red) ∧ after.root = m.root ∧
      ∀ q ∉ p :: sibling.inorder, after.node q = m.node q := by
  obtain ⟨away, single⟩ := List.nodup_cons.mp once
  obtain ⟨first, reddens, held, root, frame⟩ :=
    setParentColor_tree (some p) .red holds single there
  have here : first.node p = some (cell side up colour near sibling.top) :=
    (frame p away).trans atParent
  cases colour with
  | red =>
      let after := first.put p (cell side up .black near sibling.top)
      have blackens : rbSetBlack first (some p) = some after := by
        rw [rbSetBlack, write_some here, cell_parent, cell_recolour]
      refine ⟨after, ?_, put_same, held.frame fun q member => ?_, root, ?_⟩
      · simp only [eraseFlip, bind, reddens, Option.bind_some, rbIsRed, Memory.deref, here,
          Option.map_some, cell_colour, decide_true, if_true, blackens]
      · rw [Tree.inorder_recolour] at member
        exact put_away member away
      · intro q outside
        rw [List.mem_cons, not_or] at outside
        exact (put_other outside.1).trans (frame q outside.2)
  | black =>
      refine ⟨first, ?_, here, held, root, fun q outside => frame q ?_⟩
      · simp [eraseFlip, bind, reddens, rbIsRed, Memory.deref, here, rbParent]
      · exact fun inside => outside (by simp [inside])

/-! Cases 2 to 4 as turns: the sibling is black. -/

section Turns
variable {tree inner outer : Tree Entry} {tint : Colour}

theorem eraseBlack_outer
    (zipped : Zipped m (⟨side, colour, p, join side tint inner s outer⟩ :: path) tree)
    (red : outer.colour = .red) :
    ∃ after, eraseBlack m side (some p) (some s) = some (after, none) ∧
      HeldPath after path (some s) ∧
      Holds after (parentOf path)
        (join side colour (join side .black tree p inner) s (outer.recolour .black)) ∧
      ∀ q ∉ (plug (⟨side, colour, p, join side tint inner s outer⟩ :: path) tree).inorder,
        after.node q = m.node q := by
  obtain ⟨apartOuter, _, treeOuter, _⟩ := apart_outer (apart_sibling zipped (join_perm ..))
  obtain ⟨⟨atParent, beside, way⟩, below, _⟩ := zipped
  obtain ⟨atSibling, inside, outside⟩ := holds_join.mp beside
  rw [Tree.top_join] at atParent
  have there : outer.top ≠ none := by
    cases outer with
    | leaf => cases red
    | node => simp [Tree.top]
  obtain ⟨after, rotates, isS, isP, heldInner, heldOuter, passed, frame⟩ :=
    eraseOuter_spec atParent atSibling inside outside there way apartOuter
  refine ⟨after, ?_, passed, holds_join.mpr ⟨?_, holds_join.mpr ⟨isP, below.frame ?_, heldInner⟩,
    heldOuter⟩, ?_⟩
  · simp only [eraseBlack, bind, Memory.deref, atSibling, Option.bind_some, cell_child_other,
      redThere_tree outside, red, decide_true, if_true, rotates]
  · rw [isS, Tree.top_join, Tree.top_recolour]
  · exact fun q member => frame q (treeOuter q member)
  · intro q away
    obtain ⟨_, notP, notInner, notS, notOuter, notPath⟩ := away_sibling.mp away
    exact frame q (by simp [notP, notInner, notS, notOuter, notPath])

theorem eraseBlack_inner {i : Entry} {next far : Tree Entry}
    (zipped : Zipped m
      (⟨side, colour, p, join side tint (join side .red next i far) s outer⟩ :: path) tree)
    (black : outer.colour ≠ .red) :
    ∃ after, eraseBlack m side (some p) (some s) = some (after, none) ∧
      HeldPath after path (some i) ∧
      Holds after (parentOf path) (join side colour (join side .black tree p next) i
        (join side .black (far.recolour .black) s outer)) ∧
      ∀ q ∉ (plug (⟨side, colour, p, join side tint (join side .red next i far) s outer⟩ :: path)
        tree).inorder, after.node q = m.node q := by
  have spread : (join side tint (join side .red next i far) s outer).inorder.Perm
      (next.inorder ++ i :: far.inorder ++ s :: outer.inorder) :=
    (join_perm ..).trans ((join_perm ..).append_right _)
  obtain ⟨apartInner, apartOuter, stay, treeOuter⟩ := apart_middle (apart_sibling zipped spread)
  obtain ⟨⟨atParent, beside, way⟩, below, _⟩ := zipped
  obtain ⟨atSibling, inside, outside⟩ := holds_join.mp beside
  obtain ⟨atInner, inNext, inFar⟩ := holds_join.mp inside
  rw [Tree.top_join] at atParent atSibling
  obtain ⟨middle, lifts, isI, isS, isP, heldFar, root, first⟩ :=
    eraseInner_spec atInner atSibling atParent inFar apartInner
  have kept {others : List Entry} (among : ∀ q ∈ others, q ∈ tree.inorder ++ next.inorder ++
      outer.inorder ++ entries path) : ∀ q ∈ others, middle.node q = m.node q :=
    fun q member => first q (stay q (among q member))
  have lower : Holds middle (some p) (join side tint (far.recolour .black) s outer) :=
    holds_join.mpr ⟨by rw [isS, Tree.top_recolour], heldFar,
      outside.frame (kept fun q member => by simp [member])⟩
  have middlePath : HeldPath middle path (some p) :=
    way.frame root (kept fun q member => by simp [member])
  have middleInner : middle.node i = some (cell side (some s) .red next.top
      (join side tint (far.recolour .black) s outer).top) := by
    rw [isI, Tree.top_join]
  have below' : Holds middle (some p) tree := below.frame (kept fun q member => by simp [member])
  have order : (i :: p :: (next.inorder ++
      ((join side tint (far.recolour .black) s outer).inorder ++ entries path))).Perm
      (i :: p :: (next.inorder ++ (far.inorder ++ s :: outer.inorder ++ entries path))) := by
    have one := (join_perm side tint (far.recolour .black) outer s)
    rw [Tree.inorder_recolour] at one
    exact (((one.append_right _).append_left _).cons p).cons i
  -- Now `i` is the sibling and `s` its outer child, and the turn goes on as case 4.
  obtain ⟨after, rotates, endI, endP, heldNext, heldOuter, passed, second⟩ :=
    eraseOuter_spec isP middleInner
      (inNext.frame (kept fun q member => by simp [member])) lower (by simp) middlePath
      (order.nodup_iff.mpr apartOuter)
  rw [Tree.recolour_join] at heldOuter
  refine ⟨after, ?_, passed, holds_join.mpr ⟨?_, holds_join.mpr ⟨endP, below'.frame ?_, heldNext⟩,
    heldOuter⟩, ?_⟩
  · rw [Tree.top_join] at rotates
    have redInner := redThere_tree inside
    rw [Tree.top_join] at redInner
    simp only [eraseBlack, bind, Memory.deref, atSibling, Option.bind_some, cell_child_other,
      cell_child, redThere_tree outside, redInner, Tree.colour_join, black, decide_false,
      decide_true, Bool.false_eq_true, if_false, if_true, lifts, rotates]
  · rw [endI, Tree.top_join, Tree.top_join, Tree.top_join]
  · exact fun q member => second q fun inside => treeOuter q member (order.mem_iff.mp inside)
  · intro q away
    obtain ⟨_, notP, notInner, notS, notOuter, notPath⟩ := away_sibling.mp away
    rw [mem_join, not_or, not_or] at notInner
    obtain ⟨notNext, notI, notFar⟩ := notInner
    rw [second q fun inside => ?_, first q ?_]
    · simp [notI, notS, notP, notFar]
    · have member := order.mem_iff.mp inside
      simp [notI, notS, notP, notFar, notNext, notOuter, notPath] at member

theorem eraseBlack_flip
    (zipped : Zipped m (⟨side, colour, p, join side tint inner s outer⟩ :: path) tree)
    (one : outer.colour ≠ .red) (two : inner.colour ≠ .red) :
    ∃ after, eraseBlack m side (some p) (some s) =
        some (after, if colour = .red then none else parentOf path) ∧
      HeldPath after path (some p) ∧
      Holds after (parentOf path) (join side .black tree p (join side .red inner s outer)) ∧
      ∀ q ∉ (plug (⟨side, colour, p, join side tint inner s outer⟩ :: path) tree).inorder,
        after.node q = m.node q := by
  obtain ⟨_, apartFlip, _, stay⟩ := apart_outer (apart_sibling zipped (join_perm ..))
  obtain ⟨⟨atParent, beside, way⟩, below, _⟩ := zipped
  obtain ⟨atSibling, inside, outside⟩ := holds_join.mp beside
  have order : (p :: (join side tint inner s outer).inorder).Perm
      (p :: (inner.inorder ++ s :: outer.inorder)) := (join_perm ..).cons p
  have kept (q : Entry) (member : q ∈ tree.inorder ++ entries path) :
      q ∉ p :: (join side tint inner s outer).inorder := fun other =>
    stay q member (order.mem_iff.mp other)
  obtain ⟨after, flips, isP, held, root, frame⟩ :=
    eraseFlip_spec atParent beside (by simp) (order.nodup_iff.mpr apartFlip)
  rw [Tree.top_join] at flips
  rw [Tree.recolour_join] at held
  refine ⟨after, ?_, way.frame root ?_, holds_join.mpr ⟨?_, below.frame ?_, held⟩, ?_⟩
  · simp only [eraseBlack, bind, Memory.deref, atSibling, Option.bind_some, cell_child_other,
      cell_child, redThere_tree outside, redThere_tree inside, one, two, decide_false,
      Bool.false_eq_true, if_false, flips]
  · exact fun q member => frame q (kept q (by simp [member]))
  · rw [isP, Tree.top_join, Tree.top_join]
  · exact fun q member => frame q (kept q (by simp [member]))
  · intro q away
    obtain ⟨_, notP, notInner, notS, notOuter, _⟩ := away_sibling.mp away
    exact frame q fun inside => by
      have member := order.mem_iff.mp inside
      simp [notP, notInner, notS, notOuter] at member

theorem eraseBlack_spec {sibling : Tree Entry} {turn : Tree Entry × Bool}
    (zipped : Zipped m (⟨side, colour, p, sibling⟩ :: path) tree)
    (settles : settle side colour p tree sibling = some turn) :
    ∃ after, eraseBlack m side (some p) sibling.top =
        some (after, if turn.2 then none else parentOf path) ∧
      Zipped after path turn.1 ∧ (turn.2 = false → turn.1.top = some p) ∧
      ∀ q ∉ (plug (⟨side, colour, p, sibling⟩ :: path) tree).inorder, after.node q = m.node q := by
  have whole : (plug path turn.1).inorder.Nodup := by
    rw [plug_same_inorder path (settle_inorder settles)]
    exact zipped.once
  obtain rfl | ⟨tint, inner, s, outer, rfl⟩ := sibling.from_side side
  · cases settles
  simp only [settle, Tree.top_join, Option.bind_some, Tree.child_join, Tree.child_other_join]
    at settles
  rw [Tree.top_join]
  by_cases red : outer.colour = .red
  · rw [if_pos red] at settles
    cases settles
    obtain ⟨after, turns, way, holds, frame⟩ := eraseBlack_outer zipped red
    exact ⟨after, turns, ⟨by rwa [Tree.top_join], holds, whole⟩, by simp, frame⟩
  rw [if_neg red] at settles
  by_cases close : inner.colour = .red
  · rw [if_pos close] at settles
    obtain ⟨i, is, rfl⟩ := Option.map_eq_some_iff.mp settles
    obtain rfl | ⟨hue, next, middle, far, rfl⟩ := inner.from_side side
    · cases is
    cases (Tree.top_join ..).symm.trans is
    obtain rfl := (Tree.colour_join ..).symm.trans close
    rw [Tree.child_join, Tree.child_other_join] at whole ⊢
    obtain ⟨after, turns, way, holds, frame⟩ := eraseBlack_inner zipped red
    exact ⟨after, turns, ⟨by rwa [Tree.top_join], holds, whole⟩, by simp, frame⟩
  · rw [if_neg close] at settles
    cases settles
    obtain ⟨after, turns, way, holds, frame⟩ := eraseBlack_flip zipped red close
    refine ⟨after, ?_, ⟨by rwa [Tree.top_join], holds, whole⟩, fun _ => Tree.top_join .., frame⟩
    rw [turns]
    cases colour <;> rfl

end Turns

/-! Whole turns and the loop. -/

section Loop
variable {frame : Frame Entry} {tree fixed : Tree Entry} {turns : Nat}

theorem eraseRed_zipped {inner outer : Tree Entry}
    (zipped : Zipped m (⟨side, colour, p, join side .red inner s outer⟩ :: path) tree)
    (there : inner.top ≠ none) :
    ∃ middle, eraseRed m side (some p) (some s) = some (middle, inner.top) ∧
      Zipped middle (⟨side, .red, p, inner.recolour .black⟩ :: ⟨side, colour, s, outer⟩ :: path)
        tree ∧
      ∀ q ∉ (plug (⟨side, colour, p, join side .red inner s outer⟩ :: path) tree).inorder,
        middle.node q = m.node q := by
  have whole : (plug (⟨side, .red, p, inner.recolour .black⟩ :: ⟨side, colour, s, outer⟩ :: path)
      tree).inorder.Nodup := by
    rw [red_inorder]
    exact zipped.once
  obtain ⟨apart, stay⟩ := apart_red (apart_sibling zipped (join_perm ..))
  obtain ⟨⟨atParent, beside, way⟩, below, _⟩ := zipped
  obtain ⟨atSibling, inside, outside⟩ := holds_join.mp beside
  rw [Tree.top_join] at atParent
  obtain ⟨middle, lifts, isS, isP, held, passed, frame⟩ :=
    eraseRed_spec atParent atSibling inside there way apart
  refine ⟨middle, lifts, ⟨⟨?_, held, isS, outside.frame ?_, passed⟩, below.frame ?_, whole⟩, ?_⟩
  · rw [isP, Tree.top_recolour]
    rfl
  · exact fun q member => frame q (stay q (by simp [member]))
  · exact fun q member => frame q (stay q (by simp [member]))
  · intro q away
    obtain ⟨_, notP, notInner, notS, _, notPath⟩ := away_sibling.mp away
    exact frame q (by simp [notP, notInner, notS, notPath])

theorem eraseSide_spec {turn : Tree Entry × Bool} (zipped : Zipped m (frame :: path) tree)
    (turned : eraseTurn frame tree = some turn) :
    ∃ after, eraseSide m frame.side (some frame.entry) frame.sibling.top =
        some (after, if turn.2 then none else parentOf path) ∧
      Zipped after path turn.1 ∧ (turn.2 = false → turn.1.top = some frame.entry) ∧
      ∀ q ∉ (plug (frame :: path) tree).inorder, after.node q = m.node q := by
  have there := eraseTurn_sibling turned
  obtain ⟨side, colour, p, sibling⟩ := frame
  have shade := isRed_tree zipped.way.2.1 there
  simp only [eraseTurn] at turned
  by_cases red : sibling.colour = .red
  · rw [if_pos red] at turned
    obtain ⟨s, is, turned⟩ := Option.bind_eq_some_iff.mp turned
    obtain ⟨lower, settles, rfl⟩ := Option.map_eq_some_iff.mp turned
    obtain rfl | ⟨tint, inner, s, outer, rfl⟩ := sibling.from_side side
    · cases is
    cases (Tree.top_join ..).symm.trans is
    rw [Tree.child_join] at settles
    rw [Tree.child_other_join] at turned ⊢
    have inwards : inner.top ≠ none := by
      intro empty
      simp [settle, empty] at settles
    obtain rfl := (Tree.colour_join ..).symm.trans red
    -- The parent has become red, so that whichever case follows is the last turn.
    have done := settle_red settles
    obtain ⟨middle, lifts, again, first⟩ := eraseRed_zipped zipped inwards
    obtain ⟨after, is, final, _, second⟩ := eraseBlack_spec again settles
    rw [Tree.top_recolour, if_pos done] at is
    rw [Tree.top_join] at shade ⊢
    refine ⟨after, ?_, zipped_cons.mpr final, by simp [done], fun q away => ?_⟩
    · simp only [eraseSide, bind, shade, Tree.colour_join, decide_true, Option.bind_some, if_true,
        lifts, is, done]
    · rw [second q (by rw [red_inorder]; exact away), first q away]
  · rw [if_neg red] at turned
    obtain ⟨after, is, rest⟩ := eraseBlack_spec zipped turned
    refine ⟨after, ?_, rest⟩
    simp only [eraseSide, bind, shade, red, decide_false, Option.bind_some, Bool.false_eq_true,
      if_false, is]

theorem rbEraseColor_turn (turns : Nat) {turn : Tree Entry × Bool}
    (zipped : Zipped m (frame :: path) tree)
    (turned : eraseTurn frame tree = some turn) {after : Memory Entry} {above : Option Entry}
    (is : eraseSide m frame.side (some frame.entry) frame.sibling.top = some (after, above)) :
    rbEraseColor (turns + 1) m tree.top (some frame.entry) =
      if above.isSome then rbEraseColor turns after (some frame.entry) above else some after := by
  have there := eraseTurn_sibling turned
  have apart := zipped.apart
  obtain ⟨here, _⟩ := zipped.way
  obtain ⟨side, colour, p, sibling⟩ := frame
  obtain ⟨s, top⟩ := Option.ne_none_iff_exists'.mp there
  have different : tree.top ≠ sibling.top := by
    intro same
    have one := mem_top top
    have two := mem_top (same.trans top)
    simp only [entries] at apart
    grind
  -- The code finds the side of the node by the right child of its parent.
  cases side with
  | left =>
      have right : (cell Side.left (parentOf path) colour tree.top sibling.top).right =
          sibling.top := rfl
      simp only [rbEraseColor, bind, Memory.deref, here, Option.bind_some, right, different,
        ne_eq, not_false_eq_true, if_true, is]
  | right =>
      have right : (cell Side.right (parentOf path) colour tree.top sibling.top).right =
          tree.top := rfl
      have left : (cell Side.right (parentOf path) colour tree.top sibling.top).left =
          sibling.top := rfl
      simp only [rbEraseColor, bind, Memory.deref, here, Option.bind_some, right, left, ne_eq,
        not_true_eq_false, if_false, is]

theorem rbEraseColor_spec (zipped : Zipped m (frame :: path) tree)
    (fixes : eraseFix (frame :: path) tree = some fixed) (enough : path.length < turns) :
    ∃ after, rbEraseColor turns m tree.top (some frame.entry) = some after ∧
      Zipped after [] fixed ∧
      ∀ q ∉ (plug (frame :: path) tree).inorder, after.node q = m.node q := by
  -- On the path: a turn either ends the loop or leaves the gap one frame further up.
  induction path generalizing m frame tree turns with
  | nil =>
      obtain ⟨less, rfl⟩ : ∃ less, turns = less + 1 := ⟨turns - 1, by simp at enough; omega⟩
      obtain ⟨turn, turned, fixes⟩ := Option.bind_eq_some_iff.mp fixes
      obtain ⟨after, is, final, _, same⟩ := eraseSide_spec zipped turned
      refine ⟨after, ?_, ?_, same⟩
      · rw [rbEraseColor_turn less zipped turned is]
        cases turn.2 <;> rfl
      · split at fixes
        · cases fixes
          exact final
        · cases fixes
          exact final
  | cons next path ih =>
      obtain ⟨less, rfl⟩ : ∃ less, turns = less + 1 := ⟨turns - 1, by simp at enough; omega⟩
      obtain ⟨turn, turned, fixes⟩ := Option.bind_eq_some_iff.mp fixes
      obtain ⟨middle, is, again, top, first⟩ := eraseSide_spec zipped turned
      have step := rbEraseColor_turn less zipped turned is
      by_cases done : turn.2
      · rw [if_pos done] at fixes is
        cases fixes
        refine ⟨middle, ?_, zipped_plug.mpr again, first⟩
        rw [step, done]
        rfl
      · rw [if_neg done] at fixes
        have open' := Bool.eq_false_iff.mpr done
        obtain ⟨after, rest, final, second⟩ :=
          ih again fixes (show path.length < less by simp at enough; omega)
        refine ⟨after, ?_, final, fun q away => ?_⟩
        · rw [step, open']
          rw [top open'] at rest
          exact rest
        · have same := plug_same_inorder (next :: path) (eraseTurn_inorder turned)
          rw [second q (by rw [same]; exact away), first q away]

end Loop

end VirtioDisk.SearchTree.RbTree
