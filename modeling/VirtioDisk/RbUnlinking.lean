import VirtioDisk.RbErasure

/-!
`__rb_erase_augmented`: a node with two children is replaced by its successor, whose
own place is then the gap. `rb_erase` as a whole.
-/

namespace VirtioDisk.SearchTree.RbTree

open RedBlackTree
open SearchTree.Tree (join)

variable {Entry : Type}

/-- The nodes on a way up that ends under a node outside of it. -/
def HeldUnder (m : Memory Entry) (base : Option Entry) : List (Frame Entry) → Option Entry → Prop
  | [], _ => True
  | frame :: frames, hole =>
      m.node frame.entry =
          some (cell frame.side ((parentOf frames).or base) frame.colour hole frame.sibling.top) ∧
        Holds m (some frame.entry) frame.sibling ∧ HeldUnder m base frames (some frame.entry)

/-- The upper end of a way. -/
def rise : List (Frame Entry) → Option Entry → Option Entry
  | [], hole => hole
  | frame :: frames, _ => rise frames (some frame.entry)

theorem parentOf_append (frames path : List (Frame Entry)) :
    parentOf (frames ++ path) = (parentOf frames).or (parentOf path) := by
  cases frames <;> rfl

theorem heldPath_append {m : Memory Entry} {frames path : List (Frame Entry)}
    {hole : Option Entry} : HeldPath m (frames ++ path) hole ↔
      HeldUnder m (parentOf path) frames hole ∧ HeldPath m path (rise frames hole) := by
  induction frames generalizing hole with
  | nil => simp [HeldUnder, rise]
  | cons frame frames ih =>
      simp only [List.cons_append, HeldPath, HeldUnder, ih, parentOf_append, rise, and_assoc]

theorem HeldUnder.frame {m after : Memory Entry} {base hole : Option Entry}
    {frames : List (Frame Entry)} (held : HeldUnder m base frames hole)
    (same : ∀ q ∈ entries frames, after.node q = m.node q) : HeldUnder after base frames hole := by
  induction frames generalizing hole with
  | nil => trivial
  | cons frame frames ih =>
      obtain ⟨here, beside, held⟩ := held
      refine ⟨(same _ (by simp [entries])).trans here, beside.frame ?_, ih held ?_⟩
      · exact fun q member => same q (by simp [entries, member])
      · exact fun q member => same q (by simp [entries, member])

theorem entries_append (frames path : List (Frame Entry)) :
    entries (frames ++ path) = entries frames ++ entries path := by
  induction frames with
  | nil => rfl
  | cons frame frames ih => simp [entries, ih]

section Writes
variable [DecidableEq Entry] {m : Memory Entry} {path : List (Frame Entry)} {p s : Entry}

/-- The upper end of a way gets another parent. -/
theorem setParent_rise {base hole : Option Entry} {frame : Frame Entry}
    {frames : List (Frame Entry)} (other : Option Entry)
    (held : HeldUnder m base (frame :: frames) hole)
    (once : (entries (frame :: frames)).Nodup) :
    ∃ after, rbSetParent m (rise (frame :: frames) hole) other = some after ∧
      HeldUnder after other (frame :: frames) hole ∧ after.root = m.root ∧
      ∀ q ∉ entries (frame :: frames), after.node q = m.node q := by
  induction frames generalizing frame hole with
  | nil =>
      obtain ⟨here, beside, _⟩ := held
      rw [entries, entries, List.append_nil, List.nodup_cons] at once
      refine ⟨_, write_some here _, ⟨?_, beside.frame ?_, trivial⟩, rfl, ?_⟩
      · rw [cell_colour, cell_recolour]
        exact put_same
      · exact fun q member => put_away member once.1
      · exact fun q away => put_other fun same => away (by simp [same, entries])
  | cons next frames ih =>
      obtain ⟨here, beside, held⟩ := held
      rw [entries, List.nodup_cons, List.mem_append, not_or] at once
      obtain ⟨⟨inSibling, inRest⟩, once⟩ := once
      obtain ⟨_, rest, apart⟩ := List.nodup_append.mp once
      obtain ⟨after, writes, held, root, frame'⟩ := ih held rest
      refine ⟨after, writes, ⟨?_, beside.frame fun q member => frame' q ?_, held⟩, root, ?_⟩
      · rw [frame' _ inRest, here]
        rfl
      · exact fun other => apart q member q other rfl
      · intro q away
        rw [entries, List.mem_cons, List.mem_append, not_or, not_or] at away
        exact frame' q away.2.2

/-- The end of cases 2 and 3: `s` takes the place of `p`, and what `s` had on its right
is the subtree of the gap, under `gap`. -/
theorem eraseReplace_spec {stale one x y z : Option Entry} {colour taken : Colour}
    {left rest : Tree Entry} (gap : Option Entry)
    (atNode : m.node p = some ⟨parentOf path, colour, z, left.top⟩)
    (atSuccessor : m.node s = some ⟨stale, taken, x, y⟩)
    (inLeft : Holds m (some p) left) (there : left.top ≠ none) (inRest : Holds m one rest)
    (way : HeldPath m path (some p))
    (once : (p :: s :: (left.inorder ++ (rest.inorder ++ entries path))).Nodup) :
    ∃ after, eraseReplace m (some p) (some s) gap rest.top =
        some (after, if rest.top.isNone && taken = .black then gap else none) ∧
      after.node s = some ⟨parentOf path, colour, x, left.top⟩ ∧
      Holds after (some s) left ∧ Holds after gap (rest.recolour .black) ∧
      HeldPath after path (some s) ∧
      ∀ q ∉ s :: (left.inorder ++ (rest.inorder ++ entries path)), after.node q = m.node q := by
  obtain ⟨awayP, others⟩ := List.nodup_cons.mp once
  obtain ⟨awayS, others⟩ := List.nodup_cons.mp others
  obtain ⟨singleLeft, others, apartLeft⟩ := List.nodup_append.mp others
  obtain ⟨singleRest, once', apartRest⟩ := List.nodup_append.mp others
  simp only [List.mem_cons, List.mem_append, not_or] at awayP awayS
  obtain ⟨different, pLeft, pRest, pPath⟩ := awayP
  obtain ⟨sLeft, sRest, sPath⟩ := awayS
  have restLeft {q : Entry} (member : q ∈ rest.inorder) : q ∉ left.inorder := fun other =>
    apartLeft q other q (by simp [member]) rfl
  have pathLeft {q : Entry} (member : q ∈ entries path) : q ∉ left.inorder := fun other =>
    apartLeft q other q (by simp [member]) rfl
  have pathRest {q : Entry} (member : q ∈ entries path) : q ∉ rest.inorder := fun other =>
    apartRest q other q member rfl
  -- `s` takes over the left subtree, the slot and then the word with parent and colour.
  let first := m.put s ⟨stale, taken, x, left.top⟩
  have links : m.setChild (some s) .left left.top = some first := write_some atSuccessor _
  obtain ⟨second, moves, heldLeft, root, frame⟩ :=
    setParent_tree (some s)
      (@Holds.frame _ _ first _ _ inLeft fun q member => put_away member sLeft) singleLeft there
  have atP : second.node p = some ⟨parentOf path, colour, z, left.top⟩ := by
    rw [frame p pLeft, put_other different]
    exact atNode
  have passed : HeldPath second path (some p) := way.frame root fun q member => by
    rw [frame q (pathLeft member), put_away member sPath]
  obtain ⟨third, changes, way, frame'⟩ :=
    changeChild_path (some s) passed (List.nodup_cons.mpr ⟨pPath, once'⟩)
  have atS : third.node s = some ⟨stale, taken, x, left.top⟩ := by
    rw [frame' s sPath, frame s sLeft]
    exact put_same
  let fourth := third.put s ⟨parentOf path, colour, x, left.top⟩
  have paints : rbSetParentColor third (some s) (parentOf path) colour = some fourth :=
    write_some atS _
  have isS : fourth.node s = some ⟨parentOf path, colour, x, left.top⟩ := put_same
  have leftStays : Holds fourth (some s) left := heldLeft.frame fun q member => by
    rw [put_away member sLeft, frame' q fun other => pathLeft other member]
  have pathStays : HeldPath fourth path (some s) := way.frame rfl fun q member =>
    put_away member sPath
  have restStays : Holds fourth one rest := inRest.frame fun q member => by
    rw [put_away member sRest, frame' q fun other => pathRest other member,
      frame q (restLeft member), put_away member sRest]
  have outside (q : Entry) (notS : q ≠ s) (notLeft : q ∉ left.inorder)
      (notPath : q ∉ entries path) : fourth.node q = m.node q := by
    rw [put_other notS, frame' q notPath, frame q notLeft, put_other notS]
  have start : m.deref (some p) = some ⟨parentOf path, colour, z, left.top⟩ := atNode
  have again : second.deref (some p) = some ⟨parentOf path, colour, z, left.top⟩ := atP
  cases rest with
  | leaf =>
      have last : third.deref (some s) = some ⟨stale, taken, x, left.top⟩ := atS
      refine ⟨fourth, ?_, isS, leftStays, trivial, pathStays, fun q away => ?_⟩
      · have none : (Tree.leaf : Tree Entry).top = none := rfl
        simp only [eraseReplace, bind, start, Option.bind_some, links, moves, again, changes, none,
          Option.isSome_none, Bool.false_eq_true, if_false, last, paints, Option.isNone_none,
          Bool.true_and, decide_eq_true_eq]
      · simp only [List.mem_cons, List.mem_append, not_or] at away
        exact outside q away.1 away.2.1 away.2.2.2
  | node shade low top high =>
      -- The code paints the child black and takes that to be enough.
      obtain ⟨after, blackens, held, root', last⟩ :=
        setParentColor_tree gap .black restStays singleRest (by simp [Tree.top])
      refine ⟨after, ?_, (last s sRest).trans isS, leftStays.frame fun q member => last q ?_, held,
        pathStays.frame root' fun q member => last q (pathRest member), fun q away => ?_⟩
      · have some : (Tree.node shade low top high).top = some top := rfl
        rw [some] at blackens ⊢
        simp only [eraseReplace, bind, start, Option.bind_some, links, moves, again, changes,
          Option.isSome_some, if_true, paints, blackens, Option.isNone_some, Bool.false_and,
          Bool.false_eq_true, if_false]
      · exact fun other => restLeft other member
      · simp only [List.mem_cons, List.mem_append, not_or] at away
        obtain ⟨notS, notLeft, notRest, notPath⟩ := away
        rw [last q notRest, outside q notS notLeft notPath]

theorem eraseLeaf_spec {colour : Colour} {left right : Option Entry} {tree : Tree Entry}
    (atNode : m.node p = some ⟨parentOf path, colour, right, left⟩) (holds : Holds m (some p) tree)
    (way : HeldPath m path (some p)) (once : (p :: (tree.inorder ++ entries path)).Nodup) :
    ∃ after, eraseLeaf m (some p) tree.top =
        some (after, if tree.top.isNone && colour = .black then parentOf path else none) ∧
      HeldPath after path tree.top ∧ Holds after (parentOf path) (tree.recolour colour) ∧
      ∀ q ∉ tree.inorder ++ entries path, after.node q = m.node q := by
  obtain ⟨away, rest⟩ := List.nodup_cons.mp once
  obtain ⟨single, once', apart⟩ := List.nodup_append.mp rest
  rw [List.mem_append, not_or] at away
  obtain ⟨first, changes, way, frame⟩ :=
    changeChild_path tree.top way (List.nodup_cons.mpr ⟨away.2, once'⟩)
  have start : m.deref (some p) = some ⟨parentOf path, colour, right, left⟩ := atNode
  cases tree with
  | leaf =>
      refine ⟨first, ?_, way, trivial, fun q away => frame q (by simpa [Tree.inorder] using away)⟩
      have none : (Tree.leaf : Tree Entry).top = none := rfl
      rw [none] at changes ⊢
      simp only [eraseLeaf, bind, start, Option.bind_some, changes, Option.isSome_none,
        Bool.false_eq_true, if_false, Option.isNone_none, Bool.true_and, decide_eq_true_eq]
  | node shade low top high =>
      obtain ⟨after, paints, held, root, frame'⟩ :=
        setParentColor_tree (parentOf path) colour
          (@Holds.frame _ _ first _ _ holds fun q member =>
            frame q fun other => apart q member q other rfl) single (by simp [Tree.top])
      refine ⟨after, ?_, way.frame root fun q member => frame' q fun other =>
        apart q other q member rfl, held, fun q away => ?_⟩
      · have some : (Tree.node shade low top high).top = some top := rfl
        rw [some] at changes paints ⊢
        simp only [eraseLeaf, bind, start, Option.bind_some, changes, Option.isSome_some, if_true,
          paints, Option.isNone_some, Bool.false_and, Bool.false_eq_true, if_false]
      · rw [List.mem_append, not_or] at away
        rw [frame' q away.1, frame q away.2]

theorem eraseLeft_spec {colour : Colour} {left right : Option Entry} {tree : Tree Entry}
    (atNode : m.node p = some ⟨parentOf path, colour, right, left⟩) (holds : Holds m (some p) tree)
    (there : tree.top ≠ none) (way : HeldPath m path (some p))
    (once : (p :: (tree.inorder ++ entries path)).Nodup) :
    ∃ after, eraseLeft m (some p) tree.top = some (after, none) ∧
      HeldPath after path tree.top ∧ Holds after (parentOf path) (tree.recolour colour) ∧
      ∀ q ∉ tree.inorder ++ entries path, after.node q = m.node q := by
  obtain ⟨away, rest⟩ := List.nodup_cons.mp once
  obtain ⟨single, once', apart⟩ := List.nodup_append.mp rest
  rw [List.mem_append, not_or] at away
  obtain ⟨first, paints, held, root, frame⟩ :=
    setParentColor_tree (parentOf path) colour holds single there
  have passed : HeldPath first path (some p) := way.frame root fun q member =>
    frame q fun other => apart q other q member rfl
  obtain ⟨after, changes, way, frame'⟩ :=
    changeChild_path tree.top passed (List.nodup_cons.mpr ⟨away.2, once'⟩)
  have start : m.deref (some p) = some ⟨parentOf path, colour, right, left⟩ := atNode
  refine ⟨after, ?_, way, held.frame fun q member => frame' q fun other => ?_, fun q away => ?_⟩
  · simp only [eraseLeft, bind, start, Option.bind_some, paints, changes]
  · rw [Tree.inorder_recolour] at member
    exact apart q member q other rfl
  · rw [List.mem_append, not_or] at away
    rw [frame' q away.2, frame q away.1]

end Writes

/-! The way down to the successor. -/

section Successor
variable {m : Memory Entry}

theorem leftmost_left (path : List (Frame Entry)) (colour below : Colour)
    (left middle right : Tree Entry) (lower entry : Entry) :
    ∃ shade top beside frames,
      (leftmost path colour (.node below left lower middle) entry right).1 =
        ⟨.left, shade, top, beside⟩ :: frames := by
  induction left generalizing path colour below middle right lower entry with
  | leaf => exact ⟨colour, entry, right, path, rfl⟩
  | node shade low top high inLow _ => exact inLow _ _ _ _ _ _ _

theorem successorLoop_spec (path : List (Frame Entry)) {parent : Option Entry}
    {colour below : Colour} {left middle right : Tree Entry} {lower entry : Entry} {turns : Nat}
    (holds : Holds m parent (.node colour (.node below left lower middle) entry right))
    (enough : depth left < turns) :
    successorLoop m turns (some entry) (some lower) =
      some (parentOf (leftmost path colour (.node below left lower middle) entry right).1,
        some (leftmost path colour (.node below left lower middle) entry right).2.2.1) := by
  -- On the subtree that the loop enters; the frames behind it go to the path.
  induction left generalizing path parent colour below middle right lower entry turns with
  | leaf =>
      obtain ⟨less, rfl⟩ : ∃ less, turns = less + 1 := ⟨turns - 1, by omega⟩
      have start : m.deref (some lower) = some ⟨some entry, below, middle.top, none⟩ :=
        holds.2.1.1
      simp only [successorLoop, bind, start, Option.bind_some, Option.isSome_none,
        Bool.false_eq_true, if_false]
      rfl
  | node shade low top high inLow _ =>
      obtain ⟨less, rfl⟩ : ∃ less, turns = less + 1 := ⟨turns - 1, by omega⟩
      have start : m.deref (some lower) = some ⟨some entry, below, middle.top, some top⟩ :=
        holds.2.1.1
      simp only [successorLoop, bind, start, Option.bind_some, Option.isSome_some, if_true]
      refine inLow (⟨.left, colour, entry, right⟩ :: path) holds.2.1 ?_
      simp only [depth] at enough
      omega

end Successor

theorem apart_successor {p s : Entry} {rest frames left path : List Entry}
    (once : (s :: rest ++ (frames ++ p :: (left ++ path))).Nodup) :
    frames.Nodup ∧ (p :: s :: (left ++ (rest ++ path))).Nodup ∧
      (∀ q ∈ frames, q ∉ s :: (left ++ (rest ++ path))) ∧
      ∀ q ∈ s :: p :: (left ++ (rest ++ path)), q ∉ frames := by
  simp only [List.nodup_append, List.nodup_cons, List.mem_cons, List.mem_append] at once ⊢
  refine ⟨?_, ?_, ?_, ?_⟩ <;> grind

theorem unlink_once {path : List (Frame Entry)} {colour : Colour} {left right : Tree Entry}
    {p : Entry} (once : (plug path (.node colour left p right)).inorder.Nodup) :
    (plug (unlink path colour left right).path
      (unlink path colour left right).tree).inorder.Nodup ∧
    p ∉ (plug (unlink path colour left right).path
      (unlink path colour left right).tree).inorder := by
  rw [unlink_inorder]
  rw [plug_inorder, Tree.inorder] at once
  have moved : (before path ++ (left.inorder ++ p :: right.inorder) ++ after path).Perm
      (p :: (before path ++ (left.inorder ++ right.inorder) ++ after path)) := by
    have inside : (left.inorder ++ p :: right.inorder).Perm
        (p :: (left.inorder ++ right.inorder)) := List.perm_middle
    refine ((inside.append_left (before path)).append_right (after path)).trans ?_
    rw [List.append_assoc, List.append_assoc]
    exact List.perm_middle
  obtain ⟨away, rest⟩ := List.nodup_cons.mp (moved.nodup_iff.mp once)
  exact ⟨rest, away⟩

theorem unlink_missing {path : List (Frame Entry)} {colour : Colour} {left right : Tree Entry}
    (missing : (unlink path colour left right).missing = true) :
    (unlink path colour left right).tree.top = none := by
  cases left with
  | leaf =>
      simp only [unlink, Bool.and_eq_true, Option.isNone_iff_eq_none] at missing
      rw [unlink, Tree.top_recolour]
      exact missing.1
  | node =>
      cases right with
      | leaf => cases missing
      | node =>
          simp only [unlink, Bool.and_eq_true, Option.isNone_iff_eq_none] at missing
          rw [unlink, Tree.top_recolour]
          exact missing.1

theorem unlink_length (path : List (Frame Entry)) (colour : Colour) (left right : Tree Entry)
    (p : Entry) :
    (unlink path colour left right).path.length <
      depth (plug path (.node colour left p right)) := by
  have here := depth_plug path (.node colour left p right)
  simp only [depth] at here
  cases left with
  | leaf =>
      rw [unlink]
      dsimp only
      omega
  | node shade low root high =>
      cases right with
      | leaf =>
          rw [unlink]
          dsimp only
          omega
      | node below lower top high' =>
          have ways := leftmost_plug [] below lower top high'
          rw [unlink]
          obtain ⟨way, taken, s, rest, found⟩ : ∃ way taken s rest,
              leftmost [] below lower top high' = (way, taken, s, rest) := ⟨_, _, _, _, rfl⟩
          rw [found] at ways ⊢
          have further := depth_plug (way ++ ⟨.right, colour, p, .node shade low root high⟩ :: path)
            (.node taken .leaf s rest)
          rw [plug_append, ways] at further
          simp only [depth, plug, join, List.length_append, List.length_cons] at further ⊢
          omega

section Augmented
variable [DecidableEq Entry] {m : Memory Entry} {path : List (Frame Entry)} {p s : Entry}
  {colour taken : Colour} {left rest : Tree Entry} {turns : Nat}

/-- Case 2: the successor is the right child. -/
theorem eraseNear_spec (turns : Nat)
    (zipped : Zipped m path (.node colour left p (.node taken .leaf s rest)))
    (there : left.top ≠ none) :
    ∃ after, rbEraseAugmented m turns (some p) =
        some (after, if rest.top.isNone && taken = .black then some s else none) ∧
      HeldPath after (⟨.right, colour, s, left⟩ :: path) rest.top ∧
      Holds after (some s) (rest.recolour .black) ∧
      ∀ q ∉ s :: (left.inorder ++ (rest.inorder ++ entries path)), after.node q = m.node q := by
  have once := zipped.apart
  obtain ⟨way, ⟨atNode, inLeft, atSuccessor, _, inRest⟩, _⟩ := zipped
  have apart : (p :: s :: (left.inorder ++ (rest.inorder ++ entries path))).Nodup := by
    refine (List.Perm.nodup_iff ?_).mp once
    simp only [Tree.inorder, List.nil_append, List.append_assoc, List.cons_append]
    exact List.perm_middle.trans ((List.perm_middle.trans (.refl _)).cons p)
  obtain ⟨after, replaces, isS, heldLeft, heldRest, way, frame⟩ :=
    eraseReplace_spec (some s) atNode atSuccessor inLeft there inRest way apart
  refine ⟨after, ?_, ⟨isS, heldLeft, way⟩, heldRest, frame⟩
  have start : m.deref (some p) = some ⟨parentOf path, colour, some s, left.top⟩ := atNode
  have next : m.deref (some s) = some ⟨some p, taken, rest.top, none⟩ := atSuccessor
  have some' : left.top.isNone = false := Option.isNone_eq_false_iff.mpr
    (Option.isSome_iff_ne_none.mpr there)
  simp only [rbEraseAugmented, bind, start, Option.bind_some, some', Bool.false_eq_true, if_false,
    Option.isNone_some, next, Option.isNone_none, if_true]
  exact replaces

/-- Case 3: the successor is further down. -/
theorem eraseFar_spec {below : Colour} {lower high : Tree Entry} {top : Entry}
    {shade : Colour} {f : Entry} {beside : Tree Entry} {frames : List (Frame Entry)}
    (zipped : Zipped m path (.node colour left p (.node below lower top high)))
    (there : left.top ≠ none)
    (ways : plug (⟨.left, shade, f, beside⟩ :: frames) (.node taken .leaf s rest) =
      .node below lower top high)
    (walks : successorLoop m turns (some top) lower.top = some (some f, some s))
    (further : lower.top ≠ none) :
    ∃ after, rbEraseAugmented m turns (some p) =
        some (after, if rest.top.isNone && taken = .black then some f else none) ∧
      HeldPath after ((⟨.left, shade, f, beside⟩ :: frames) ++ ⟨.right, colour, s, left⟩ :: path)
        rest.top ∧
      Holds after (some f) (rest.recolour .black) ∧
      ∀ q ∉ s :: (left.inorder ++ (rest.inorder ++ entries path)) ++
        entries (⟨.left, shade, f, beside⟩ :: frames), after.node q = m.node q := by
  have atTop := zipped.below.2.2.1
  have atNode := zipped.below.1
  have opened : Zipped m
      ((⟨.left, shade, f, beside⟩ :: frames) ++ ⟨.right, colour, p, left⟩ :: path)
      (.node taken .leaf s rest) := by
    rw [← zipped_plug, plug_append, ways]
    exact zipped_plug.mpr ((@zipped_cons _ m ⟨.right, colour, p, left⟩ path _).mp zipped)
  have once : (s :: rest.inorder ++ (entries (⟨.left, shade, f, beside⟩ :: frames) ++
      p :: (left.inorder ++ entries path))).Nodup := by
    have apart := opened.apart
    rwa [entries_append] at apart
  obtain ⟨way, ⟨atSuccessor, _, inRest⟩, _⟩ := opened
  obtain ⟨under, here, inLeft, way⟩ := heldPath_append.mp way
  have up : rise frames (some f) = some top := by
    have same := here.symm.trans atNode
    injection same with same
    injection same with _ _ right _
  obtain ⟨single, apart, stay, away⟩ := apart_successor once
  have fAway : f ∉ s :: (left.inorder ++ (rest.inorder ++ entries path)) :=
    stay f (by simp [entries])
  have sAway : s ∉ entries (⟨.left, shade, f, beside⟩ :: frames) := away s (by simp)
  -- The successor is cut off from its parent.
  let first := m.put f (cell .left ((parentOf frames).or (some p)) shade rest.top beside.top)
  have cuts : m.setChild (some f) .left rest.top = some first := by
    rw [Memory.setChild, write_some under.1, cell_setChild]
    rfl
  have firstUnder : HeldUnder first (some p) (⟨.left, shade, f, beside⟩ :: frames) rest.top := by
    rw [entries, List.nodup_cons, List.mem_append, not_or] at single
    exact ⟨put_same, under.2.1.frame fun q member => put_away member single.1.1,
      under.2.2.frame fun q member => put_away member single.1.2⟩
  -- It takes over the right subtree of the node.
  let second := first.put s ⟨parentOf ((⟨.left, shade, f, beside⟩ :: frames) ++
    ⟨.right, colour, p, left⟩ :: path), taken, some top, none⟩
  have takes : first.setChild (some s) .right (some top) = some second := by
    rw [Memory.setChild, write_some ((put_other fun same => fAway (by simp [same])).trans
      atSuccessor)]
    rfl
  have secondUnder : HeldUnder second (some p) (⟨.left, shade, f, beside⟩ :: frames) rest.top :=
    firstUnder.frame fun q member => put_away member sAway
  obtain ⟨third, lifts, thirdUnder, root, frame⟩ :=
    setParent_rise (some s) secondUnder single
  have kept (q : Entry) (member : q ∈ p :: (left.inorder ++ (rest.inorder ++ entries path)))
      (other : q ≠ s) : third.node q = m.node q := by
    have outside := away q (List.mem_cons_of_mem s member)
    rw [frame q outside, put_other other, put_other fun same => outside (by simp [same, entries])]
  obtain ⟨notS, others⟩ := List.nodup_cons.mp apart
  obtain ⟨sOutside, _⟩ := List.nodup_cons.mp others
  have beyond {q : Entry} (member : q ∈ left.inorder ++ (rest.inorder ++ entries path)) :
      third.node q = m.node q :=
    kept q (List.mem_cons_of_mem p member) fun same => sOutside (same ▸ member)
  have thirdNode : third.node p = some ⟨parentOf path, colour, some top, left.top⟩ := by
    rw [kept p (by simp) fun same => notS (by simp [same])]
    exact atNode
  have thirdSuccessor := (frame s sAway).trans put_same
  have thirdRoot : third.root = m.root := root
  obtain ⟨after, replaces, isS, heldLeft, heldRest, way, last⟩ :=
    eraseReplace_spec (some f) thirdNode thirdSuccessor
      (inLeft.frame fun q member => beyond (by simp [member])) there
      (inRest.frame fun q member => beyond (by simp [member]))
      (way.frame thirdRoot fun q member => beyond (by simp [member])) apart
  refine ⟨after, ?_, ?_, heldRest, fun q outside => ?_⟩
  · have start : m.deref (some p) = some ⟨parentOf path, colour, some top, left.top⟩ := atNode
    have next : m.deref (some top) = some ⟨some p, below, high.top, lower.top⟩ := atTop
    have last : m.deref (some s) = some ⟨_, taken, rest.top, none⟩ := atSuccessor
    have raises : rbSetParent second (some top) (some s) = some third := by
      rw [← up]
      exact lifts
    have inLeft : left.top.isNone = false :=
      Option.isNone_eq_false_iff.mpr (Option.isSome_iff_ne_none.mpr there)
    have inLower : lower.top.isNone = false :=
      Option.isNone_eq_false_iff.mpr (Option.isSome_iff_ne_none.mpr further)
    simp only [rbEraseAugmented, bind, start, Option.bind_some, inLeft, Bool.false_eq_true,
      if_false, Option.isNone_some, next, inLower, walks, last, cuts, takes, raises]
    exact replaces
  · refine heldPath_append.mpr ⟨thirdUnder.frame fun q member => last q (stay q member), ?_,
      heldLeft, way⟩
    rw [isS]
    exact congrArg some (congrArg (RbNode.mk _ _ · _) up.symm)
  · rw [List.mem_append, not_or] at outside
    obtain ⟨notHere, notFrames⟩ := outside
    rw [last q notHere, frame q notFrames, put_other fun same => notHere (by simp [same]),
      put_other fun same => notFrames (by simp [same, entries])]

theorem rbEraseAugmented_spec {right : Tree Entry}
    (zipped : Zipped m path (.node colour left p right)) (enough : depth right ≤ turns) :
    ∃ after, rbEraseAugmented m turns (some p) =
        some (after, if (unlink path colour left right).missing then
          parentOf (unlink path colour left right).path else none) ∧
      Zipped after (unlink path colour left right).path (unlink path colour left right).tree ∧
      ∀ q ∉ (plug (unlink path colour left right).path
        (unlink path colour left right).tree).inorder, after.node q = m.node q := by
  have once := (unlink_once zipped.once).1
  have atNode := zipped.below.1
  have start : m.deref (some p) = some ⟨parentOf path, colour, right.top, left.top⟩ := atNode
  cases left with
  | leaf =>
      have apart := zipped.apart
      obtain ⟨after, erases, way, holds, frame⟩ :=
        eraseLeaf_spec atNode zipped.below.2.2 zipped.way apart
      refine ⟨after, ?_, ⟨?_, holds, once⟩, fun q away => frame q fun inside => away ?_⟩
      · have empty : (Tree.leaf : Tree Entry).top = none := rfl
        rw [empty] at start
        simp only [rbEraseAugmented, bind, start, Option.bind_some, Option.isNone_none, if_true]
        exact erases
      · rw [unlink, Tree.top_recolour]
        exact way
      · rw [mem_plug, unlink, Tree.inorder_recolour]
        exact List.mem_append.mp inside
  | node shade low root high =>
      have there : (Tree.node shade low root high).top ≠ none := by simp [Tree.top]
      have taken : (Tree.node shade low root high).top.isNone = false := rfl
      cases right with
      | leaf =>
          have apart : (p :: ((Tree.node shade low root high).inorder ++ entries path)).Nodup := by
            have apart := zipped.apart
            rw [Tree.inorder, Tree.inorder, List.append_assoc] at apart
            exact List.nodup_middle.mp apart
          obtain ⟨after, erases, way, holds, frame⟩ :=
            eraseLeft_spec atNode zipped.below.2.1 there zipped.way apart
          refine ⟨after, ?_, ⟨way, holds, once⟩, fun q away => frame q fun inside => away ?_⟩
          · have empty : (Tree.leaf : Tree Entry).top = none := rfl
            rw [empty] at start
            simp only [rbEraseAugmented, bind, start, Option.bind_some, taken, Bool.false_eq_true,
              if_false, Option.isNone_none, if_true]
            exact erases
          · rw [mem_plug, unlink]
            exact List.mem_append.mp inside
      | node below lower top high' =>
          cases lower with
          | leaf =>
              obtain ⟨after, erases, way, holds, frame⟩ := eraseNear_spec turns zipped there
              refine ⟨after, erases, ⟨?_, holds, once⟩, fun q away => frame q fun inside => away ?_⟩
              · rw [unlink, leftmost, Tree.top_recolour]
                exact way
              · rw [mem_plug]
                simp only [unlink, leftmost, Tree.inorder_recolour, List.nil_append, entries,
                  List.mem_cons, List.mem_append] at inside ⊢
                grind
          | node deep lower' inner middle =>
              have head := leftmost_left [] below deep lower' middle high' inner top
              have ways := leftmost_plug [] below (.node deep lower' inner middle) top high'
              have fewer : depth lower' < turns := by
                simp only [depth] at enough
                omega
              have walks := successorLoop_spec [] zipped.below.2.2 fewer
              obtain ⟨way, taken, s, rest, found⟩ : ∃ way taken s rest,
                  leftmost [] below (.node deep lower' inner middle) top high' =
                    (way, taken, s, rest) := ⟨_, _, _, _, rfl⟩
              have gap : unlink path colour (.node shade low root high)
                  (.node below (.node deep lower' inner middle) top high') =
                    ⟨way ++ ⟨.right, colour, s, .node shade low root high⟩ :: path,
                      rest.recolour .black, rest.top.isNone && taken = .black⟩ := by
                rw [unlink, found]
              rw [found] at head ways walks
              rw [gap] at once ⊢
              obtain ⟨tint, f, beside, frames, rfl⟩ := head
              obtain ⟨after, erases, way, holds, frame⟩ :=
                eraseFar_spec zipped there ways walks (by simp [Tree.top])
              refine ⟨after, ?_, ⟨?_, holds, once⟩, fun q away => frame q fun inside => away ?_⟩
              · rw [erases]
                rfl
              · rw [Tree.top_recolour]
                exact way
              · rw [mem_plug, Tree.inorder_recolour]
                simp only [entries_append, entries, List.mem_cons, List.mem_append] at inside ⊢
                grind

/-- What `rb_erase` does to a red-black tree: it stays one, without the node. -/
theorem erased_balanced {tree : Tree Entry} (zipped : Zipped m [] tree) (balanced : Balanced tree)
    (inside : p ∈ tree.inorder) (enough : depth tree ≤ turns) :
    ∃ after, rbErase m turns (some p) = some after ∧ Zipped after [] (RedBlackTree.erase p tree) ∧
      Balanced (RedBlackTree.erase p tree) ∧
      (RedBlackTree.erase p tree).inorder = tree.inorder.erase p ∧
      ∀ q ∉ tree.inorder.erase p, after.node q = m.node q := by
  have order := @erase_inorder _ _ p tree
  have whole := erase_balanced p balanced
  obtain ⟨place, found⟩ : ∃ place, locate p [] tree = some place :=
    Option.ne_none_iff_exists'.mp fun none => (locate_none _ _).mp none inside
  obtain ⟨path, colour, left, right⟩ := place
  have opened : plug path (.node colour left p right) = tree := (locate_some found).1
  subst opened
  obtain ⟨fixed, closes, _⟩ := unlink_balanced balanced
  have erases := erase_here zipped.once closes
  have shallow := depth_plug path (.node colour left p right)
  simp only [depth] at shallow
  have low : depth right ≤ turns := by omega
  obtain ⟨middle, takes, gap, first⟩ := rbEraseAugmented_spec (zipped_plug.mp zipped) low
  have short := unlink_length path colour left right p
  rw [erases] at order whole ⊢
  have outside {q : Entry} (away : q ∉ (plug path (.node colour left p right)).inorder.erase p) :
      q ∉ (plug (unlink path colour left right).path
        (unlink path colour left right).tree).inorder := by
    rw [← order] at away
    rw [Gap.close] at closes
    split at closes
    · rwa [← eraseFix_inorder closes]
    · cases closes
      exact away
  rw [Gap.close] at closes
  split at closes
  · next missing =>
      rw [if_pos missing] at takes
      have empty := unlink_missing missing
      generalize unlink path colour left right = hole at closes takes gap short outside first empty
      obtain ⟨way, rest, _⟩ := hole
      cases way with
      | nil =>
          cases closes
          refine ⟨middle, ?_, gap, whole, order, fun q away => first q (outside away)⟩
          simp only [rbErase, bind, takes, Option.bind_some]
          rfl
      | cons frame way =>
          have long : way.length < turns := by
            simp only [List.length_cons] at short
            omega
          obtain ⟨after, fixes, final, second⟩ := rbEraseColor_spec gap closes long
          refine ⟨after, ?_, final, whole, order, fun q away => ?_⟩
          · rw [empty] at fixes
            simp only [rbErase, bind, takes, Option.bind_some, parentOf, Option.isSome_some,
              if_true]
            exact fixes
          · rw [second q (outside away), first q (outside away)]
  · next done =>
      rw [if_neg done] at takes
      cases closes
      refine ⟨middle, ?_, zipped_plug.mpr gap, whole, order, fun q away => first q (outside away)⟩
      simp only [rbErase, bind, takes, Option.bind_some, Option.isSome_none, Bool.false_eq_true,
        if_false]

end Augmented

end VirtioDisk.SearchTree.RbTree
