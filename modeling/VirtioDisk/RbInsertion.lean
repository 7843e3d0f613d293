import VirtioDisk.HeldTree
import VirtioDisk.RedBlackBalance

/-!
`rb_insert_color`: the writes to memory make the tree that the steps on trees make.
-/

namespace VirtioDisk.SearchTree.RbTree

open RedBlackTree
open SearchTree.Tree (join)

variable {Entry : Type}

theorem apart_inner {n p g : Entry} {near far brother uncle rest : List Entry}
    (once : (near ++ n :: far ++ p :: (brother ++ g :: (uncle ++ rest))).Nodup) :
    (n :: p :: near).Nodup ∧ (n :: g :: (far ++ rest)).Nodup ∧
      (∀ q ∈ g :: (far ++ rest), q ∉ n :: p :: near) ∧
      (∀ q ∈ p :: near, q ∉ n :: g :: (far ++ rest)) ∧
      ∀ q ∈ brother ++ uncle, q ∉ n :: p :: near ∧ q ∉ n :: g :: (far ++ rest) := by
  simp only [List.nodup_append, List.nodup_cons, List.mem_cons, List.mem_append] at once ⊢
  refine ⟨?_, ?_, ?_, ?_, ?_⟩ <;> grind

variable [DecidableEq Entry] {m : Memory Entry} {side : Side} {path : List (Frame Entry)}
  {p g : Entry}

/-- `old` is over `new`; afterwards `new` is in its place, with its colour. -/
theorem rotateSetParents_spec {stale : Option Entry} {shade colour : Colour}
    {near far inner outer : Option Entry} (color : Colour)
    (atNew : m.node p = some (cell side stale shade near far))
    (atOld : m.node g = some (cell side (parentOf path) colour inner outer))
    (way : HeldPath m path (some g)) (once : (p :: g :: entries path).Nodup) :
    ∃ after, rbRotateSetParents m (some g) (some p) color = some after ∧
      after.node p = some (cell side (parentOf path) colour near far) ∧
      after.node g = some (cell side (some p) color inner outer) ∧
      HeldPath after path (some p) ∧
      ∀ q ∉ p :: g :: entries path, after.node q = m.node q := by
  obtain ⟨away, once⟩ := List.nodup_cons.mp once
  obtain ⟨inPath, _⟩ := List.nodup_cons.mp once
  rw [List.mem_cons, not_or] at away
  obtain ⟨different, outside⟩ := away
  let moved := m.put p (cell side (parentOf path) colour near far)
  let turned := moved.put g (cell side (some p) color inner outer)
  have first : m.write (some p) (fun n => { n with parent := parentOf path, colour := colour }) =
      some moved := by
    rw [write_some atNew, cell_recolour]
  have second : rbSetParentColor moved (some g) (some p) color = some turned := by
    rw [rbSetParentColor, write_some ((put_other (Ne.symm different)).trans atOld), cell_recolour]
  have held : HeldPath turned path (some g) := way.frame rfl fun q member =>
    (put_away member inPath).trans (put_away member outside)
  obtain ⟨after, changes, way, frame⟩ := changeChild_path (some p) held once
  refine ⟨after, ?_, ?_, ?_, way, ?_⟩
  · simp only [rbRotateSetParents, Memory.deref, atOld, bind, Option.bind_some, cell_parent,
      cell_colour, first, second, changes]
  · rw [frame p outside, put_other different]
    exact put_same
  · rw [frame g inPath]
    exact put_same
  · intro q away
    simp only [List.mem_cons, not_or] at away
    rw [frame q away.2.2, put_other away.2.1, put_other away.1]

/-- Case 3: `p` comes up, `g` goes down with what `p` had on the other side. -/
theorem insertOuter_spec {stale beside : Option Entry} {shade colour : Colour}
    {near out uncle : Option Entry} {inner : Tree Entry}
    (atParent : m.node p = some (cell side stale shade near inner.top))
    (atGrand : m.node g = some (cell side (parentOf path) colour out uncle))
    (holds : Holds m beside inner) (way : HeldPath m path (some g))
    (once : (p :: g :: (inner.inorder ++ entries path)).Nodup) :
    ∃ after, insertOuter m side (some p) (some g) inner.top = some after ∧
      after.node p = some (cell side (parentOf path) colour near (some g)) ∧
      after.node g = some (cell side (some p) .red inner.top uncle) ∧
      Holds after (some g) (inner.recolour .black) ∧ HeldPath after path (some p) ∧
      ∀ q ∉ p :: g :: (inner.inorder ++ entries path), after.node q = m.node q := by
  obtain ⟨awayP, rest⟩ := List.nodup_cons.mp once
  obtain ⟨awayG, rest⟩ := List.nodup_cons.mp rest
  obtain ⟨single, once', apart⟩ := List.nodup_append.mp rest
  simp only [List.mem_cons, List.mem_append, not_or] at awayP awayG
  obtain ⟨different, pInner, pPath⟩ := awayP
  obtain ⟨gInner, gPath⟩ := awayG
  let first := m.put g (cell side (parentOf path) colour inner.top uncle)
  let second := first.put p (cell side stale shade near (some g))
  have lowered : m.setChild (some g) side inner.top = some first := by
    rw [Memory.setChild, write_some atGrand, cell_setChild]
  have raised : first.setChild (some p) side.other (some g) = some second := by
    rw [Memory.setChild, write_some ((put_other different).trans atParent), cell_setChild_other]
  obtain ⟨third, adopts, held, root, frame⟩ := adopt_tree (some g)
    (@Holds.frame _ _ second _ _ holds fun q member =>
      (put_away member pInner).trans (put_away member gInner)) single
  have passed : HeldPath third path (some g) := way.frame root fun q member => by
    rw [frame q fun inside => apart q inside q member rfl, put_away member pPath,
      put_away member gPath]
  have atP : third.node p = some (cell side stale shade near (some g)) :=
    (frame p pInner).trans put_same
  have atG : third.node g = some (cell side (parentOf path) colour inner.top uncle) := by
    rw [frame g gInner, put_other (Ne.symm different)]
    exact put_same
  obtain ⟨after, turns, isP, isG, way, last⟩ := rotateSetParents_spec .red atP atG passed
    (by simp [different, pPath, gPath, once'])
  refine ⟨after, ?_, isP, isG, held.frame fun q member => last q ?_, way, ?_⟩
  · simp only [insertOuter, bind, lowered, raised, adopts, turns, Option.bind_some]
  · rw [Tree.inorder_recolour] at member
    simp only [List.mem_cons, not_or]
    exact ⟨fun same => pInner (same ▸ member), fun same => gInner (same ▸ member),
      fun other => apart q member q other rfl⟩
  · intro q away
    simp only [List.mem_cons, List.mem_append, not_or] at away
    obtain ⟨notP, notG, notInner, notPath⟩ := away
    rw [last q (by simp [notP, notG, notPath]), frame q notInner, put_other notP, put_other notG]

/-- Case 2: `n` comes up over its parent `p`, which still has the pointer to its own. -/
theorem insertInner_spec {n : Entry} {stale up beside : Option Entry} {shade colour : Colour}
    {out far : Option Entry} {near : Tree Entry}
    (atNode : m.node n = some (cell side stale shade near.top far))
    (atParent : m.node p = some (cell side up colour out (some n)))
    (holds : Holds m beside near) (once : (n :: p :: near.inorder).Nodup) :
    ∃ after, insertInner m side (some n) (some p) = some (after, far) ∧
      after.node n = some (cell side stale shade (some p) far) ∧
      after.node p = some (cell side (some n) .red out near.top) ∧
      Holds after (some p) (near.recolour .black) ∧ after.root = m.root ∧
      ∀ q ∉ n :: p :: near.inorder, after.node q = m.node q := by
  obtain ⟨awayN, rest⟩ := List.nodup_cons.mp once
  obtain ⟨pNear, single⟩ := List.nodup_cons.mp rest
  simp only [List.mem_cons, not_or] at awayN
  obtain ⟨different, nNear⟩ := awayN
  let first := m.put p (cell side up colour out near.top)
  let second := first.put n (cell side stale shade (some p) far)
  have lowered : m.setChild (some p) side.other near.top = some first := by
    rw [Memory.setChild, write_some atParent, cell_setChild_other]
  have raised : first.setChild (some n) side (some p) = some second := by
    rw [Memory.setChild, write_some ((put_other different).trans atNode), cell_setChild]
  obtain ⟨third, adopts, held, root, frame⟩ := adopt_tree (some p)
    (@Holds.frame _ _ second _ _ holds fun q member =>
      (put_away member nNear).trans (put_away member pNear)) single
  have atP : third.node p = some (cell side up colour out near.top) := by
    rw [frame p pNear, put_other (Ne.symm different)]
    exact put_same
  have atN : third.node n = some (cell side stale shade (some p) far) :=
    (frame n nNear).trans put_same
  let after := third.put p (cell side (some n) .red out near.top)
  have repainted : rbSetParentColor third (some p) (some n) .red = some after := by
    rw [rbSetParentColor, write_some atP, cell_recolour]
  have isN : after.node n = some (cell side stale shade (some p) far) :=
    (put_other different).trans atN
  refine ⟨after, ?_, isN, put_same, held.frame fun q member => ?_, root, ?_⟩
  · simp only [insertInner, bind, Memory.deref, atNode, Option.bind_some, cell_child, lowered,
      raised, adopts, repainted, isN, cell_child_other]
  · rw [Tree.inorder_recolour] at member
    exact put_away member pNear
  · intro q away
    simp only [List.mem_cons, not_or] at away
    obtain ⟨notN, notP, notNear⟩ := away
    rw [put_other notP, frame q notNear, put_other notN, put_other notP]

/-- Case 1: the colours of `g` and of its children are exchanged. -/
theorem insertFlip_spec {up : Option Entry} {shade colour : Colour} {near far : Option Entry}
    {inward : Side} {uncle : Tree Entry}
    (atParent : m.node p = some (cell inward (some g) shade near far))
    (atGrand : m.node g = some (cell side up colour (some p) uncle.top))
    (holds : Holds m (some g) uncle) (there : uncle.top ≠ none)
    (once : (p :: g :: uncle.inorder).Nodup) :
    ∃ after, insertFlip m (some p) (some g) uncle.top = some (after, up) ∧
      after.node p = some (cell inward (some g) .black near far) ∧
      after.node g = some (cell side up .red (some p) uncle.top) ∧
      Holds after (some g) (uncle.recolour .black) ∧ after.root = m.root ∧
      ∀ q ∉ p :: g :: uncle.inorder, after.node q = m.node q := by
  obtain ⟨awayP, rest⟩ := List.nodup_cons.mp once
  obtain ⟨gUncle, single⟩ := List.nodup_cons.mp rest
  simp only [List.mem_cons, not_or] at awayP
  obtain ⟨different, pUncle⟩ := awayP
  obtain ⟨first, blackens, held, root, frame⟩ :=
    setParentColor_tree (some g) .black holds single there
  let second := first.put p (cell inward (some g) .black near far)
  let after := second.put g (cell side up .red (some p) uncle.top)
  have isG : second.node g = some (cell side up colour (some p) uncle.top) := by
    rw [put_other (Ne.symm different), frame g gUncle, atGrand]
  have parentBlack : rbSetParentColor first (some p) (some g) .black = some second := by
    rw [rbSetParentColor, write_some ((frame p pUncle).trans atParent), cell_recolour]
  have grandRed : rbSetParentColor second (some g) up .red = some after := by
    rw [rbSetParentColor, write_some isG, cell_recolour]
  refine ⟨after, ?_, (put_other different).trans put_same, put_same, held.frame fun q member => ?_,
    root, ?_⟩
  · simp only [insertFlip, bind, blackens, parentBlack, Option.bind_some, rbParent, Memory.deref,
      isG, Option.map_some, cell_parent, grandRed]
  · rw [Tree.inorder_recolour] at member
    rw [put_away member gUncle, put_away member pUncle]
  · intro q away
    simp only [List.mem_cons, not_or] at away
    obtain ⟨notP, notG, notUncle⟩ := away
    rw [put_other notG, put_other notP, frame q notUncle]

theorem insertSide_inner {n : Entry} {shade colour tint : Colour}
    {near far brother uncle : Tree Entry}
    (atParent : m.node p = some (cell side.other (some g) shade
      (join side tint near n far).top brother.top))
    (beside : Holds m (some p) brother)
    (atGrand : m.node g = some (cell side (parentOf path) colour (some p) uncle.top))
    (aside : Holds m (some g) uncle) (way : HeldPath m path (some g))
    (below : Holds m (some p) (join side tint near n far))
    (opened : redThere m uncle.top = some false)
    (once : ((join side tint near n far).inorder ++
      p :: (brother.inorder ++ g :: (uncle.inorder ++ entries path))).Nodup) :
    ∃ after, insertSide m side (some n) (some p) (some g) = some (after, none) ∧
      HeldPath after path (some n) ∧
      Holds after (parentOf path) (join side colour
        (join side .red brother p (near.recolour .black)) n
        (join side .red (far.recolour .black) g uncle)) ∧
      ∀ q ∉ (plug (⟨side.other, shade, p, brother⟩ :: ⟨side, colour, g, uncle⟩ :: path)
        (join side tint near n far)).inorder, after.node q = m.node q := by
  obtain ⟨atNode, inNear, inFar⟩ := holds_join.mp below
  rw [Tree.top_join] at atParent
  have turned := cell_other side (some g) shade (some n) brother.top
  obtain ⟨apartNear, apartFar, fromNear, fromFar, fromBoth⟩ :=
    apart_inner (((join_perm side tint near far n).append_right _).nodup_iff.mp once)
  obtain ⟨middle, lifts, atN, atP, heldNear, root, first⟩ :=
    insertInner_spec (p := p) atNode (atParent.trans (congrArg some turned)) inNear apartNear
  have farStays : Holds middle (some n) far :=
    inFar.frame fun q member => first q (fromNear q (by simp [member]))
  have pathStays : HeldPath middle path (some g) :=
    way.frame root fun q member => first q (fromNear q (by simp [member]))
  have grandStays := (first g (fromNear g (by simp))).trans atGrand
  obtain ⟨after, rotates, isN, isG, heldFar, passed, second⟩ :=
    insertOuter_spec atN grandStays farStays pathStays apartFar
  have both (q : Entry) (member : q ∈ brother.inorder ++ uncle.inorder) :
      after.node q = m.node q :=
    (second q (fromBoth q member).2).trans (first q (fromBoth q member).1)
  refine ⟨after, ?_, passed, holds_join.mpr ⟨?_, holds_join.mpr ⟨?_, beside.frame ?_,
    heldNear.frame ?_⟩, holds_join.mpr ⟨?_, heldFar, aside.frame ?_⟩⟩, ?_⟩
  · have inner : (cell side.other (some g) shade (some n) brother.top).child side.other = some n :=
      cell_child ..
    simp only [insertSide, bind, Memory.deref, atGrand, atParent, Option.bind_some,
      cell_child_other, opened, Bool.false_eq_true, if_false, inner, if_true, lifts, rotates]
  · rw [isN, Tree.top_join, Tree.top_join]
  · rw [second p (fromFar p (by simp)), atP]
    cases near <;> rfl
  · exact fun q member => both q (by simp [member])
  · rw [Tree.inorder_recolour]
    exact fun q member => second q (fromFar q (by simp [member]))
  · rw [isG]
    cases far <;> rfl
  · exact fun q member => both q (by simp [member])
  · intro q away
    simp only [mem_plug, entries, (join_perm side tint near far n).mem_iff, List.mem_append,
      List.mem_cons, not_or] at away
    obtain ⟨⟨notNear, notN, notFar⟩, notP, _, notG, _, notPath⟩ := away
    rw [second q (by simp [notN, notG, notFar, notPath]), first q (by simp [notN, notP, notNear])]

section Turns
variable {parent grand : Frame Entry} {tree : Tree Entry}

theorem insertSide_flip (zipped : Zipped m (parent :: grand :: path) tree)
    (flips : grand.sibling.colour = .red) :
    ∃ after, insertSide m grand.side tree.top (some parent.entry) (some grand.entry) =
        some (after, some (parentOf path)) ∧
      Zipped after path (join grand.side .red
        (join parent.side .black tree parent.entry parent.sibling) grand.entry
          (grand.sibling.recolour .black)) ∧
      ∀ q ∉ (plug (parent :: grand :: path) tree).inorder, after.node q = m.node q := by
  obtain ⟨side, colour, g, uncle⟩ := grand
  obtain ⟨inward, shade, p, brother⟩ := parent
  have once := zipped.apart
  obtain ⟨⟨atParent, beside, atGrand, aside, way⟩, below, whole⟩ := zipped
  simp only [entries] at once
  have there : uncle.top ≠ none := by
    cases uncle with
    | leaf => cases flips
    | node => simp [Tree.top]
  obtain ⟨after, flipped, isP, isG, held, root, frame⟩ :=
    insertFlip_spec atParent atGrand aside there (by grind)
  refine ⟨after, ?_, ⟨?_, ?_, ?_⟩, ?_⟩
  · simp only [insertSide, bind, Memory.deref, atGrand, Option.bind_some, cell_child_other,
      redThere_tree aside, flips, decide_true, if_true, flipped]
  · rw [Tree.top_join]
    exact way.frame root fun q member => frame q (by grind)
  · refine holds_join.mpr ⟨?_, holds_join.mpr ⟨isP, below.frame ?_, beside.frame ?_⟩, held⟩
    · rw [isG, Tree.top_join]
      cases uncle <;> rfl
    · exact fun q member => frame q (by grind)
    · exact fun q member => frame q (by grind)
  · have same := plug_same_inorder path
      (flip_inorder ⟨inward, shade, p, brother⟩ ⟨side, colour, g, uncle⟩ tree)
    rwa [same]
  · intro q away
    simp only [mem_plug, entries] at away
    exact frame q (by grind)

theorem insertSide_turn {turned : Tree Entry} (zipped : Zipped m (parent :: grand :: path) tree)
    (there : tree.top ≠ none)
    (black : grand.sibling.colour ≠ .red) (turns : rotated grand parent tree = some turned) :
    ∃ after, insertSide m grand.side tree.top (some parent.entry) (some grand.entry) =
        some (after, none) ∧ Zipped after path turned ∧
      ∀ q ∉ (plug (parent :: grand :: path) tree).inorder, after.node q = m.node q := by
  have whole : (plug path turned).inorder.Nodup := by
    have same := plug_same_inorder path (rotated_inorder turns)
    rw [same]
    exact zipped.once
  obtain ⟨side, colour, g, uncle⟩ := grand
  obtain ⟨inward, shade, p, brother⟩ := parent
  have once := zipped.apart
  obtain ⟨⟨atParent, beside, atGrand, aside, way⟩, below, _⟩ := zipped
  simp only [entries] at once
  have opened := redThere_tree aside
  rw [decide_eq_false black] at opened
  simp only [rotated] at turns
  -- On the outer side the parent comes up, on the inner side the node itself.
  split at turns
  · next same =>
      subst same
      cases turns
      have different : tree.top ≠ brother.top := by
        intro same
        obtain ⟨n, is⟩ := Option.ne_none_iff_exists'.mp there
        have one := mem_top is
        have two := mem_top (same.symm.trans is)
        grind
      obtain ⟨after, rotates, isP, isG, held, passed, frame⟩ :=
        insertOuter_spec atParent atGrand beside way (by grind)
      refine ⟨after, ?_, ⟨?_, ?_, whole⟩, ?_⟩
      · simp only [insertSide, bind, Memory.deref, atGrand, atParent, Option.bind_some,
          cell_child_other, opened, Bool.false_eq_true, if_false, different, rotates]
      · rw [Tree.top_join]
        exact passed
      · refine holds_join.mpr ⟨?_, below.frame ?_, holds_join.mpr ⟨?_, held, aside.frame ?_⟩⟩
        · rw [isP, Tree.top_join]
        · exact fun q member => frame q (by grind)
        · rw [isG]
          cases brother <;> rfl
        · exact fun q member => frame q (by grind)
      · intro q away
        simp only [mem_plug, entries] at away
        exact frame q (by grind)
  · next different =>
      obtain rfl | ⟨tint, near, n, far, rfl⟩ := tree.from_side side
      · exact absurd rfl there
      obtain rfl := side_other different
      rw [Tree.top_join, Option.map_some, Tree.child_join, Tree.child_other_join] at turns
      cases turns
      obtain ⟨after, is, way, holds, frame⟩ :=
        insertSide_inner atParent beside atGrand aside way below opened once
      rw [Tree.top_join]
      exact ⟨after, is, ⟨by rwa [Tree.top_join], holds, whole⟩, frame⟩

end Turns

theorem side_found {frame : Frame Entry} {child : Entry} (away : child ∉ frame.sibling.inorder)
    (parent : Option Entry) (colour : Colour) :
    (if some child ≠ (cell frame.side parent colour (some child) frame.sibling.top).right then
      Side.left else .right) = frame.side := by
  obtain ⟨side, shade, entry, sibling⟩ := frame
  cases side with
  | left => exact if_pos fun same => away (mem_top same.symm)
  | right => exact if_neg fun different => different rfl

section Loop
variable {turns : Nat} {frame grand : Frame Entry} {tree : Tree Entry}

theorem rbInsert_black {hole node : Option Entry} (way : HeldPath m (frame :: path) hole)
    (black : frame.colour = .black) :
    rbInsert (turns + 1) m node (some frame.entry) = some m := by
  have shade : rbIsRed m (some frame.entry) = some false := by
    simp [rbIsRed, Memory.deref, way.1, black]
  simp only [rbInsert, Option.isNone_some, Bool.false_eq_true, if_false, bind, shade,
    Option.bind_some]

theorem rbInsert_red (zipped : Zipped m (frame :: grand :: path) tree) (red : frame.colour = .red)
    {after : Memory Entry} {above : Option (Option Entry)}
    (turned : insertSide m grand.side tree.top (some frame.entry) (some grand.entry) =
      some (after, above)) :
    rbInsert (turns + 1) m tree.top (some frame.entry) =
      above.elim (some after) (rbInsert turns after (some grand.entry)) := by
  obtain ⟨here, _, upper, _⟩ := zipped.way
  have shade : rbIsRed m (some frame.entry) = some true := by
    simp [rbIsRed, Memory.deref, here, red]
  have up : rbRedParent m (some frame.entry) = some (some grand.entry) := by
    simp [rbRedParent, Memory.deref, here, red, parentOf]
  have apart := zipped.apart
  have away : frame.entry ∉ grand.sibling.inorder := by
    simp only [entries] at apart
    grind
  have side := side_found away (parentOf path) grand.colour
  simp only [rbInsert, Option.isNone_some, Bool.false_eq_true, if_false, bind, shade, if_true,
    Option.bind_some, up, Memory.deref, upper, side, turned]
  cases above <;> rfl

theorem rbInsert_spec {fixed : Tree Entry} (zipped : Zipped m path tree)
    (there : tree.top ≠ none) (fixes : insertFix path tree = some fixed)
    (enough : path.length < turns) :
    ∃ after, rbInsert turns m tree.top (parentOf path) = some after ∧ Zipped after [] fixed ∧
      ∀ q ∉ (plug path tree).inorder, after.node q = m.node q := by
  -- The cases of the loop: the root, a black parent, a red uncle, a rotation.
  induction path, tree using insertFix.induct generalizing m turns with
  | case1 tree =>
      obtain ⟨less, rfl⟩ : ∃ less, turns = less + 1 := ⟨turns - 1, by simp at enough; omega⟩
      cases fixes
      obtain ⟨way, below, once⟩ := zipped
      obtain ⟨after, blackens, held, root, frame⟩ :=
        setParentColor_tree none .black below once there
      refine ⟨after, blackens, ⟨?_, held, ?_⟩, frame⟩
      · refine root.trans (way.trans ?_)
        cases tree <;> rfl
      · rwa [plug, tree.inorder_recolour]
  | case2 parent tree done =>
      obtain ⟨less, rfl⟩ : ∃ less, turns = less + 1 := ⟨turns - 1, by simp at enough; omega⟩
      rw [insertFix, if_pos done] at fixes
      cases fixes
      exact ⟨m, rbInsert_black zipped.way done, zipped_plug.mpr zipped, fun _ _ => rfl⟩
  | case3 parent tree redParent =>
      rw [insertFix, if_neg redParent] at fixes
      cases fixes
  | case4 parent grand path tree done =>
      obtain ⟨less, rfl⟩ : ∃ less, turns = less + 1 := ⟨turns - 1, by simp at enough; omega⟩
      rw [insertFix, if_pos done] at fixes
      cases fixes
      exact ⟨m, rbInsert_black zipped.way done, zipped_plug.mpr zipped, fun _ _ => rfl⟩
  | case5 parent grand path tree redParent flips ih =>
      rw [insertFix, if_neg redParent, if_pos flips] at fixes
      obtain ⟨less, rfl⟩ : ∃ less, turns = less + 1 := ⟨turns - 1, by simp at enough; omega⟩
      obtain ⟨middle, turned, again, first⟩ := insertSide_flip zipped flips
      obtain ⟨after, rest, final, second⟩ :=
        ih again (by simp) fixes (show path.length < less by simp at enough; omega)
      refine ⟨after, ?_, final, fun q away => ?_⟩
      · rw [Tree.top_join] at rest
        exact (rbInsert_red zipped (not_black.mp redParent) turned).trans rest
      · have same := plug_same_inorder path (flip_inorder parent grand tree)
        rw [second q (by rw [same]; exact away), first q away]
  | case6 parent grand path tree redParent turning =>
      rw [insertFix, if_neg redParent, if_neg turning] at fixes
      obtain ⟨less, rfl⟩ : ∃ less, turns = less + 1 := ⟨turns - 1, by simp at enough; omega⟩
      obtain ⟨turned, rotates, rfl⟩ := Option.map_eq_some_iff.mp fixes
      obtain ⟨after, is, again, frame⟩ := insertSide_turn zipped there turning rotates
      exact ⟨after, rbInsert_red zipped (not_black.mp redParent) is, zipped_plug.mpr again, frame⟩

end Loop

def linkOf : List (Frame Entry) → Side
  | [] => .left
  | frame :: _ => frame.side

theorem rbLinkNode_spec {n : RbNode Entry} (zipped : Zipped m path .leaf)
    (fresh : p ∉ entries path) (there : m.node p = some n) :
    ∃ linked, rbLinkNode m (some p) (parentOf path) (linkOf path) = some linked ∧
      Zipped linked path (.node .red .leaf p .leaf) ∧
      ∀ q ∉ p :: entries path, linked.node q = m.node q := by
  have whole : (plug path (.node .red .leaf p .leaf)).inorder.Nodup := by
    rw [(plug_perm path _).nodup_iff]
    exact List.nodup_cons.mpr ⟨fresh, zipped.apart⟩
  let first := m.put p ⟨parentOf path, .red, none, none⟩
  have writes : m.write (some p) (fun _ => ⟨parentOf path, .red, none, none⟩) = some first :=
    write_some there _
  cases path with
  | nil =>
      refine ⟨{ first with root := some p }, ?_, ⟨rfl, ⟨put_same, trivial, trivial⟩, whole⟩, ?_⟩
      · simp only [rbLinkNode, writes, bind, Option.bind_some]
        rfl
      · exact fun q away => put_other fun same => away (by simp [same])
  | cons frame path =>
      obtain ⟨side, colour, parent, sibling⟩ := frame
      obtain ⟨here, beside, way⟩ := zipped.way
      have once := zipped.apart
      simp only [Tree.inorder, List.nil_append, entries, List.nodup_cons, List.mem_append,
        not_or] at once
      simp only [entries, List.mem_cons, List.mem_append, not_or] at fresh
      obtain ⟨⟨inSibling, inPath⟩, _⟩ := once
      obtain ⟨different, outside, beyond⟩ := fresh
      have links : first.setChild (some parent) side (some p) =
          some (first.put parent (cell side (parentOf path) colour (some p) sibling.top)) := by
        rw [Memory.setChild, write_some ((put_other (Ne.symm different)).trans here), cell_setChild]
      refine ⟨first.put parent (cell side (parentOf path) colour (some p) sibling.top), ?_,
        ⟨⟨put_same, beside.frame ?_, way.frame rfl ?_⟩, ⟨?_, trivial, trivial⟩, whole⟩, ?_⟩
      · simp only [rbLinkNode, writes, bind, Option.bind_some]
        exact links
      · exact fun q member => (put_away member inSibling).trans (put_away member outside)
      · exact fun q member => (put_away member inPath).trans (put_away member beyond)
      · exact (put_other different).trans put_same
      · intro q away
        simp only [List.mem_cons, not_or] at away
        exact (put_other fun same => away.2 (by simp [same, entries])).trans (put_other away.1)

theorem rbInsertColor_spec {fixed : Tree Entry} {turns : Nat}
    (zipped : Zipped m path (.node .red .leaf p .leaf))
    (fixes : insertFix path (.node .red .leaf p .leaf) = some fixed)
    (enough : path.length < turns) :
    ∃ after, rbInsertColor m turns (some p) = some after ∧ Zipped after [] fixed ∧
      ∀ q ∉ p :: entries path, after.node q = m.node q := by
  obtain ⟨after, inserts, final, frame⟩ := rbInsert_spec zipped (by simp [Tree.top]) fixes enough
  refine ⟨after, ?_, final, fun q away => frame q ?_⟩
  · simp only [rbInsertColor, rbRedParent, Memory.deref, zipped.below.1, bind, Option.bind_some,
      if_true]
    exact inserts
  · simpa [mem_plug, Tree.inorder] using away

/-- A new node at any free place of a red-black tree: the code runs to its end, and the
tree is red-black again. -/
theorem inserted_balanced {n : RbNode Entry} {turns : Nat} (zipped : Zipped m path .leaf)
    (balanced : Balanced (plug path .leaf)) (fresh : p ∉ (plug path .leaf).inorder)
    (there : m.node p = some n) (enough : path.length < turns) :
    ∃ linked after tree, rbLinkNode m (some p) (parentOf path) (linkOf path) = some linked ∧
      rbInsertColor linked turns (some p) = some after ∧ Zipped after [] tree ∧ Balanced tree ∧
      insertColor p (plug path (.node .red .leaf p .leaf)) = tree ∧
      tree.inorder = before path ++ p :: RedBlackTree.after path ∧
      ∀ q, q ≠ p → q ∉ (plug path .leaf).inorder → after.node q = m.node q := by
  obtain ⟨tree, fixes, whole⟩ := insert_balanced p balanced
  obtain ⟨linked, links, middle, first⟩ :=
    rbLinkNode_spec zipped (fun member => fresh (mem_plug.mpr (.inr member))) there
  obtain ⟨after, inserts, final, second⟩ := rbInsertColor_spec middle fixes enough
  refine ⟨linked, after, tree, links, inserts, final, whole, insertColor_here middle.once fixes, ?_,
    fun q other away => ?_⟩
  · rw [insertFix_inorder fixes, plug_inorder]
    simp [Tree.inorder]
  · have outside : q ∉ p :: entries path := by
      simpa [other, mem_plug, Tree.inorder] using away
    rw [second q outside, first q outside]

end VirtioDisk.SearchTree.RbTree
