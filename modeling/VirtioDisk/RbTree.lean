import VirtioDisk.RedBlackTree

/-!
util/rbtree.c with linux/rbtree_augmented.h: the nodes in memory, where a null pointer
or a node that is not there stops the code. The parent and the colour share a word;
`rb_red_parent` takes the word of a red node as its parent. The callbacks of augmented
trees do nothing here. The two halves of each loop are one definition with the side,
and a loop has a bound on its turns.
-/

namespace VirtioDisk.SearchTree.RbTree

variable {Entry : Type} [DecidableEq Entry]

/-- `struct rb_node` -/
structure RbNode (Entry : Type) where
  parent : Option Entry
  colour : Colour
  right : Option Entry
  left : Option Entry

def RbNode.child (n : RbNode Entry) : Side → Option Entry
  | .left => n.left
  | .right => n.right

def RbNode.setChild (n : RbNode Entry) (side : Side) (p : Option Entry) : RbNode Entry :=
  match side with
  | .left => { n with left := p }
  | .right => { n with right := p }

structure Memory (Entry : Type) where
  node : Entry → Option (RbNode Entry)
  root : Option Entry

namespace Memory

def deref (m : Memory Entry) : Option Entry → Option (RbNode Entry)
  | none => none
  | some p => m.node p

def put (m : Memory Entry) (p : Entry) (n : RbNode Entry) : Memory Entry :=
  { m with node := fun q => if q = p then some n else m.node q }

def write (m : Memory Entry) (p : Option Entry) (f : RbNode Entry → RbNode Entry) :
    Option (Memory Entry) :=
  match p with
  | none => none
  | some p => (m.node p).map fun n => m.put p (f n)

def setChild (m : Memory Entry) (p : Option Entry) (side : Side) (child : Option Entry) :
    Option (Memory Entry) :=
  m.write p fun n => n.setChild side child

end Memory

variable (m : Memory Entry)

def rbParent (p : Option Entry) : Option (Option Entry) := (m.deref p).map RbNode.parent

def rbIsRed (p : Option Entry) : Option Bool := (m.deref p).map fun n => n.colour = .red

def rbRedParent (red : Option Entry) : Option (Option Entry) :=
  (m.deref red).bind fun n => if n.colour = .red then some n.parent else none

def rbSetBlack (p : Option Entry) : Option (Memory Entry) :=
  m.write p fun n => { n with colour := .black }

def rbSetParent (p parent : Option Entry) : Option (Memory Entry) :=
  m.write p fun n => { n with parent := parent }

def rbSetParentColor (p parent : Option Entry) (color : Colour) : Option (Memory Entry) :=
  m.write p fun n => { n with parent := parent, colour := color }

/-- `if (tmp) rb_set_parent_color(tmp, parent, RB_BLACK)` -/
def adopt (tmp parent : Option Entry) : Option (Memory Entry) :=
  if tmp.isSome then rbSetParentColor m tmp parent .black else some m

/-- `if (tmp) rb_set_parent(tmp, parent)` -/
def carry (tmp parent : Option Entry) : Option (Memory Entry) :=
  if tmp.isSome then rbSetParent m tmp parent else some m

/-- `tmp && rb_is_red(tmp)` -/
def redThere (tmp : Option Entry) : Option Bool :=
  if tmp.isSome then rbIsRed m tmp else some false

def rbChangeChild (old new parent : Option Entry) : Option (Memory Entry) :=
  if parent.isSome then do
    let p ← m.deref parent
    if p.left = old then m.setChild parent .left new
    else m.setChild parent .right new
  else some { m with root := new }

def rbRotateSetParents (old new : Option Entry) (color : Colour) : Option (Memory Entry) := do
  let o ← m.deref old
  let m ← m.write new fun n => { n with parent := o.parent, colour := o.colour }
  let m ← rbSetParentColor m old new color
  rbChangeChild m old new o.parent

/-- Where the pointer to a new node is stored: `&root->rb_node` or a child of `parent`. -/
def rbLinkNode (node parent : Option Entry) (link : Side) : Option (Memory Entry) := do
  let m ← m.write node fun _ => ⟨parent, .red, none, none⟩
  if parent.isSome then m.setChild parent link node
  else some { m with root := node }

/-! `__rb_insert` -/

section Insertion
variable (side : Side) (node parent gparent : Option Entry)

/-- Case 1 - color flips -/
def insertFlip (tmp : Option Entry) : Option (Memory Entry × Option Entry) := do
  let m ← rbSetParentColor m tmp gparent .black
  let m ← rbSetParentColor m parent gparent .black
  let above ← rbParent m gparent
  let m ← rbSetParentColor m gparent above .red
  some (m, above)

/-- Case 2 - rotate at parent: the child of `node` that is next on the side -/
def insertInner : Option (Memory Entry × Option Entry) := do
  let tmp := (← m.deref node).child side
  let m ← m.setChild parent side.other tmp
  let m ← m.setChild node side parent
  let m ← adopt m tmp parent
  let m ← rbSetParentColor m parent node .red
  some (m, (← m.deref node).child side.other)

/-- Case 3 - rotate at gparent -/
def insertOuter (tmp : Option Entry) : Option (Memory Entry) := do
  let m ← m.setChild gparent side tmp
  let m ← m.setChild parent side.other gparent
  let m ← adopt m tmp gparent
  rbRotateSetParents m gparent parent .red

/-- One turn under a red parent, with the new parent if the loop goes on at `gparent`. -/
def insertSide : Option (Memory Entry × Option (Option Entry)) := do
  let tmp := (← m.deref gparent).child side.other
  if ← redThere m tmp then
    let (m, above) ← insertFlip m parent gparent tmp
    some (m, some above)
  else
    let tmp := (← m.deref parent).child side.other
    if node = tmp then
      let (m, tmp) ← insertInner m side node parent
      let m ← insertOuter m side node gparent tmp
      some (m, none)
    else
      let m ← insertOuter m side parent gparent tmp
      some (m, none)

end Insertion

def rbInsert : Nat → Memory Entry → Option Entry → Option Entry → Option (Memory Entry)
  | 0, _, _, _ => none
  | turns + 1, m, node, parent =>
      if parent.isNone then rbSetParentColor m node none .black
      else do
        if ← rbIsRed m parent then
          let gparent ← rbRedParent m parent
          let tmp := (← m.deref gparent).right
          let side := if parent ≠ tmp then Side.left else .right
          let (m, above) ← insertSide m side node parent gparent
          match above with
          | none => some m
          | some above => rbInsert turns m gparent above
        else some m

def rbInsertColor (turns : Nat) (node : Option Entry) : Option (Memory Entry) := do
  let parent ← rbRedParent m node
  rbInsert turns m node parent

/-! `____rb_erase_color` -/

section Erasure
variable (side : Side) (parent sibling : Option Entry)

/-- Case 1 - rotate at parent: the new sibling -/
def eraseRed : Option (Memory Entry × Option Entry) := do
  let tmp1 := (← m.deref sibling).child side
  let m ← m.setChild parent side.other tmp1
  let m ← m.setChild sibling side parent
  let m ← rbSetParentColor m tmp1 parent .black
  let m ← rbRotateSetParents m parent sibling .red
  some (m, tmp1)

/-- Case 2 - sibling color flip: the parent to go on at, if there is one -/
def eraseFlip : Option (Memory Entry × Option Entry) := do
  let m ← rbSetParentColor m sibling parent .red
  if ← rbIsRed m parent then
    let m ← rbSetBlack m parent
    some (m, none)
  else
    let above ← rbParent m parent
    some (m, above)

/-- Case 3 - rotate at sibling -/
def eraseInner (tmp2 : Option Entry) : Option (Memory Entry) := do
  let tmp1 := (← m.deref tmp2).child side.other
  let m ← m.setChild sibling side tmp1
  let m ← m.setChild tmp2 side.other sibling
  let m ← m.setChild parent side.other tmp2
  adopt m tmp1 sibling

/-- Case 4 - rotate at parent + color flips -/
def eraseOuter (tmp1 : Option Entry) : Option (Memory Entry) := do
  let tmp2 := (← m.deref sibling).child side
  let m ← m.setChild parent side.other tmp2
  let m ← m.setChild sibling side parent
  let m ← rbSetParentColor m tmp1 sibling .black
  let m ← carry m tmp2 parent
  rbRotateSetParents m parent sibling .black

/-- Cases 2 to 4 -/
def eraseBlack : Option (Memory Entry × Option Entry) := do
  let tmp1 := (← m.deref sibling).child side.other
  if ← redThere m tmp1 then
    let m ← eraseOuter m side parent sibling tmp1
    some (m, none)
  else
    let tmp2 := (← m.deref sibling).child side
    if ← redThere m tmp2 then
      let m ← eraseInner m side parent sibling tmp2
      let m ← eraseOuter m side parent tmp2 sibling
      some (m, none)
    else eraseFlip m parent sibling

/-- One turn: the parent of the next one, where `parent` is the node. -/
def eraseSide : Option (Memory Entry × Option Entry) := do
  if ← rbIsRed m sibling then
    let (m, sibling) ← eraseRed m side parent sibling
    eraseBlack m side parent sibling
  else eraseBlack m side parent sibling

end Erasure

def rbEraseColor : Nat → Memory Entry → Option Entry → Option Entry → Option (Memory Entry)
  | 0, _, _, _ => none
  | turns + 1, m, node, parent => do
      let sibling := (← m.deref parent).right
      let (m, above) ←
        if node ≠ sibling then eraseSide m .left parent sibling
        else do eraseSide m .right parent (← m.deref parent).left
      if above.isSome then rbEraseColor turns m parent above
      else some m

/-! `__rb_erase_augmented` -/

/-- `do { parent = successor; successor = tmp; tmp = tmp->rb_left; } while (tmp)` -/
def successorLoop : Nat → Option Entry → Option Entry → Option (Option Entry × Option Entry)
  | 0, _, _ => none
  | turns + 1, successor, tmp => do
      let next := (← m.deref tmp).left
      if next.isSome then successorLoop turns tmp next
      else some (successor, tmp)

/-- Case 1 with the only child, or none: the parent to rebalance at -/
def eraseLeaf (node child : Option Entry) : Option (Memory Entry × Option Entry) := do
  let pc ← m.deref node
  let m ← rbChangeChild m node child pc.parent
  if child.isSome then
    let m ← rbSetParentColor m child pc.parent pc.colour
    some (m, none)
  else some (m, if pc.colour = .black then pc.parent else none)

/-- Still case 1, but this time the child is `node->rb_left` -/
def eraseLeft (node tmp : Option Entry) : Option (Memory Entry × Option Entry) := do
  let pc ← m.deref node
  let m ← rbSetParentColor m tmp pc.parent pc.colour
  let m ← rbChangeChild m node tmp pc.parent
  some (m, none)

/-- The end of cases 2 and 3: the successor takes the node's place. -/
def eraseReplace (node successor parent child2 : Option Entry) :
    Option (Memory Entry × Option Entry) := do
  let tmp := (← m.deref node).left
  let m ← m.setChild successor .left tmp
  let m ← rbSetParent m tmp successor
  let pc ← m.deref node
  let m ← rbChangeChild m node successor pc.parent
  if child2.isSome then
    let m ← rbSetParentColor m successor pc.parent pc.colour
    let m ← rbSetParentColor m child2 parent .black
    some (m, none)
  else
    let pc2 ← m.deref successor
    let m ← rbSetParentColor m successor pc.parent pc.colour
    some (m, if pc2.colour = .black then parent else none)

def rbEraseAugmented (turns : Nat) (node : Option Entry) : Option (Memory Entry × Option Entry) := do
  let child := (← m.deref node).right
  let tmp := (← m.deref node).left
  if tmp.isNone then eraseLeaf m node child
  else if child.isNone then eraseLeft m node tmp
  else
    let tmp := (← m.deref child).left
    if tmp.isNone then
      -- Case 2: node's successor is its right child
      let child2 := (← m.deref child).right
      eraseReplace m node child child child2
    else
      -- Case 3: node's successor is leftmost under node's right child subtree
      let (parent, successor) ← successorLoop m turns child tmp
      let child2 := (← m.deref successor).right
      let m ← m.setChild parent .left child2
      let m ← m.setChild successor .right child
      let m ← rbSetParent m child successor
      eraseReplace m node successor parent child2

def rbErase (turns : Nat) (node : Option Entry) : Option (Memory Entry) := do
  let (m, rebalance) ← rbEraseAugmented m turns node
  if rebalance.isSome then rbEraseColor turns m none rebalance
  else some m

end VirtioDisk.SearchTree.RbTree
