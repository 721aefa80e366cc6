import G3Mod.Rbtree.Model

/-!
# `lib/rbtree.c` on nodes in memory

A node is known by its address; 0 is the null pointer. The colour is packed into the low bits of the parent pointer.
Where the source follows a null pointer the model gives `none`; loops run on fuel and give `none` without it. Code that
the source writes for each side is written once, for a side.
-/

namespace G3Mod.Rbtree

def Side.opp : Side → Side
  | .left => .right
  | .right => .left

namespace Pointer

/-- The members of all `struct rb_node`s, and `root->rb_node`. -/
structure Heap where
  parentColor : Nat → Nat
  left : Nat → Nat
  right : Nat → Nat
  root : Nat

namespace Heap

def parent (h : Heap) (a : Nat) : Nat :=
  h.parentColor a / 4 * 4

def color (h : Heap) (a : Nat) : Color :=
  if h.parentColor a % 2 = 0 then .red else .black

def isRed (h : Heap) (a : Nat) : Bool :=
  h.color a = .red

/-- `rb_set_parent`: an address has its two low bits clear, so that `|` is a sum. -/
def setParent (h : Heap) (a p : Nat) : Heap :=
  { h with parentColor := Function.update h.parentColor a (p + h.parentColor a % 4) }

def setParentOf (h : Heap) (a p : Nat) : Heap :=
  if a ≠ 0 then h.setParent a p else h

def setColor (h : Heap) (a : Nat) (c : Color) : Heap :=
  { h with
    parentColor := Function.update h.parentColor a
      (h.parentColor a / 2 * 2 + match c with | .red => 0 | .black => 1) }

def setRed (h : Heap) (a : Nat) : Heap :=
  h.setColor a .red

def setBlack (h : Heap) (a : Nat) : Heap :=
  h.setColor a .black

def child (h : Heap) (d : Side) (a : Nat) : Nat :=
  d.near (h.left a) (h.right a)

def setChild (h : Heap) (d : Side) (a v : Nat) : Heap :=
  match d with
  | .left => { h with left := Function.update h.left a v }
  | .right => { h with right := Function.update h.right a v }

def blackOrNull (h : Heap) (p : Nat) : Bool :=
  p = 0 || !h.isRed p

/-! ## Rotations -/

/-- `__rb_rotate_left` for the left side, `__rb_rotate_right` for the right one. -/
def rotate (h : Heap) (d : Side) (node : Nat) : Heap :=
  let pivot := h.child d.opp node
  let parent := h.parent node
  let inner := h.child d pivot
  let h := h.setChild d.opp node inner
  let h := h.setParentOf inner node
  let h := h.setChild d pivot node
  let h := h.setParent pivot parent
  let h :=
    if parent ≠ 0 then
      if node = h.child d parent then h.setChild d parent pivot else h.setChild d.opp parent pivot
    else { h with root := pivot }
  h.setParent node pivot

def rbRotateLeft (h : Heap) (node : Nat) : Heap := h.rotate .left node

def rbRotateRight (h : Heap) (node : Nat) : Heap := h.rotate .right node

/-- `rb_link_node`; the link is a child pointer of `parent`, or the root. -/
def rbLinkNode (h : Heap) (node parent : Nat) (link : Option Side) : Heap :=
  let h :=
    { h with
      parentColor := Function.update h.parentColor node parent
      left := Function.update h.left node 0
      right := Function.update h.right node 0 }
  match link with
  | none => { h with root := node }
  | some d => h.setChild d parent node

/-- The two rotations that end `rb_insert_color`; the new `node` comes with the heap. -/
def insertRotate (h : Heap) (d : Side) (node parent gparent : Nat) : Nat × Heap :=
  let (node, parent, h) :=
    if h.child d.opp parent = node then (parent, node, h.rotate d parent) else (node, parent, h)
  let h := h.setBlack parent
  let h := h.setRed gparent
  (node, h.rotate d.opp gparent)

def rbInsertColor : Nat → Heap → Nat → Option Heap
  | 0, _, _ => none
  | fuel + 1, h, node =>
    let parent := h.parent node
    if parent ≠ 0 ∧ h.isRed parent then
      let gparent := h.parent parent
      if gparent = 0 then none
      else
        let d : Side := if parent = h.left gparent then .left else .right
        let uncle := h.child d.opp gparent
        if uncle ≠ 0 ∧ h.isRed uncle then
          rbInsertColor fuel (((h.setBlack uncle).setBlack parent).setRed gparent) gparent
        else
          let (node, h) := h.insertRotate d node parent gparent
          rbInsertColor fuel h node
    else if h.root = 0 then none
    else some (h.setBlack h.root)

/-! ## Removal -/

/-- The first branch of `__rb_erase_color`; the new `other` comes with the heap. -/
def eraseSibling (h : Heap) (d : Side) (parent other : Nat) : Heap × Nat :=
  if h.isRed other then
    let h := ((h.setBlack other).setRed parent).rotate d parent
    (h, h.child d.opp parent)
  else (h, other)

/-- The last branch of `__rb_erase_color`, which ends the loop. -/
def eraseRotate (h : Heap) (d : Side) (parent other : Nat) : Option Heap :=
  let step : Option (Heap × Nat) :=
    if h.blackOrNull (h.child d.opp other) then
      if h.child d other = 0 then none
      else
        let h := h.setBlack (h.child d other)
        let h := h.setRed other
        let h := h.rotate d.opp other
        some (h, h.child d.opp parent)
    else some (h, other)
  match step with
  | none => none
  | some (h, other) =>
    let h := h.setColor other (h.color parent)
    let h := h.setBlack parent
    if h.child d.opp other = 0 then none
    else
      let h := h.setBlack (h.child d.opp other)
      some (h.rotate d parent)

def eraseEnd (h : Heap) (node : Nat) : Heap :=
  if node ≠ 0 then h.setBlack node else h

def rbEraseColor : Nat → Heap → Nat → Nat → Option Heap
  | 0, _, _, _ => none
  | fuel + 1, h, node, parent =>
    if h.blackOrNull node ∧ node ≠ h.root then
      if parent = 0 then none
      else
        let d : Side := if h.left parent = node then .left else .right
        let other := h.child d.opp parent
        if other = 0 then none
        else
          let (h, other) := h.eraseSibling d parent other
          if other = 0 then none
          else if h.blackOrNull (h.left other) ∧ h.blackOrNull (h.right other) then
            let h := h.setRed other
            rbEraseColor fuel h parent (h.parent parent)
          else (h.eraseRotate d parent other).map fun h => h.eraseEnd h.root
    else some (h.eraseEnd node)

/-- The loops `while (n->rb_left) n = n->rb_left` of the left side, and those of the right side. -/
def descend (h : Heap) (d : Side) : Nat → Nat → Option Nat
  | 0, _ => none
  | fuel + 1, n => if h.child d n ≠ 0 then h.descend d fuel (h.child d n) else some n

/-- `child` takes the place of `node`, a child of `parent`. -/
def replaceChild (h : Heap) (node parent child : Nat) : Heap :=
  if parent ≠ 0 then
    if h.left parent = node then h.setChild .left parent child else h.setChild .right parent child
  else { h with root := child }

/-- `rb_erase` of a node with at most one child. -/
def eraseLeaf (h : Heap) (fuel node child : Nat) : Option Heap :=
  let parent := h.parent node
  let color := h.color node
  let h := h.setParentOf child parent
  let h := h.replaceChild node parent child
  if color = .black then h.rbEraseColor fuel child parent else some h

/-- `node` leaves its place and takes over the right child of `old`; the parent of `child` comes with the heap. -/
def liftNext (h : Heap) (old node child parent : Nat) : Heap × Nat :=
  if parent = old then (h, node)
  else
    let h := h.setParentOf child parent
    let h := h.setChild .left parent child
    let h := h.setChild .right node (h.right old)
    let h := h.setParent (h.right old) node
    (h, parent)

/-- `node` takes over the parent, the colour and the left child of `old`. -/
def takePlace (h : Heap) (old node : Nat) : Heap :=
  let h := { h with parentColor := Function.update h.parentColor node (h.parentColor old) }
  let h := h.setChild .left node (h.left old)
  h.setParent (h.left old) node

/-- `rb_erase` of a node `old` with two children; `node` is the next one, which takes its place. -/
def eraseInner (h : Heap) (fuel old node : Nat) : Option Heap :=
  let h := h.replaceChild old (h.parent old) node
  let child := h.right node
  let parent := h.parent node
  let color := h.color node
  let (h, parent) := h.liftNext old node child parent
  let h := h.takePlace old node
  if color = .black then h.rbEraseColor fuel child parent else some h

def rbErase (h : Heap) (fuel node : Nat) : Option Heap :=
  if h.left node = 0 then h.eraseLeaf fuel node (h.right node)
  else if h.right node = 0 then h.eraseLeaf fuel node (h.left node)
  else
    match h.descend .left fuel (h.right node) with
    | none => none
    | some next => h.eraseInner fuel node next

/-! ## Walks and replacement -/

/-- `rb_first` for the left side, `rb_last` for the right one. -/
def outermost (h : Heap) (d : Side) (fuel : Nat) : Option Nat :=
  if h.root = 0 then some 0 else h.descend d fuel h.root

/-- The climb at the end of `rb_next`, for the right side, and of `rb_prev`, for the left one. -/
def climb (h : Heap) (d : Side) : Nat → Nat → Option Nat
  | 0, _ => none
  | fuel + 1, node =>
    let parent := h.parent node
    if parent ≠ 0 ∧ node = h.child d parent then h.climb d fuel parent else some parent

/-- `rb_next` for the right side, `rb_prev` for the left one. -/
def neighbour (h : Heap) (d : Side) (fuel node : Nat) : Option Nat :=
  if h.parent node = node then some 0
  else if h.child d node ≠ 0 then h.descend d.opp fuel (h.child d node)
  else h.climb d fuel node

def rbFirst (h : Heap) (fuel : Nat) : Option Nat := h.outermost .left fuel

def rbLast (h : Heap) (fuel : Nat) : Option Nat := h.outermost .right fuel

def rbNext (h : Heap) (fuel node : Nat) : Option Nat := h.neighbour .right fuel node

def rbPrev (h : Heap) (fuel node : Nat) : Option Nat := h.neighbour .left fuel node

def rbReplaceNode (h : Heap) (victim new : Nat) : Heap :=
  let parent := h.parent victim
  let h := h.replaceChild victim parent new
  let h := h.setParentOf (h.left victim) new
  let h := h.setParentOf (h.right victim) new
  { h with
    parentColor := Function.update h.parentColor new (h.parentColor victim)
    left := Function.update h.left new (h.left victim)
    right := Function.update h.right new (h.right victim) }

end Heap

end Pointer

end G3Mod.Rbtree
