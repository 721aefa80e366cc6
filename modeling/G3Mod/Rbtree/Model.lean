import Mathlib.Order.Basic

/-!
# Red-black trees

The trees of `lib/rbtree.c`. A node and its parent links become a zipper: a subtree with the path of frames up to the
root. Where the source dereferences a null pointer the model returns `none`; the balance shows that it never does.
-/

namespace G3Mod.Rbtree

inductive Color where
  | red
  | black
  deriving DecidableEq, Repr

inductive Side where
  | left
  | right
  deriving DecidableEq, Repr

inductive RbTree (α : Type) where
  | nil
  | node (color : Color) (left : RbTree α) (elem : α) (right : RbTree α)
  deriving DecidableEq, Repr

variable {α : Type}

/-! ## Nodes seen from one side

`lib/rbtree.c` writes every case twice. Here a case is written once, for a side `d`: the child on side `d` is the near
one, the other the far one. -/

def Side.near (d : Side) (l r : α) : α :=
  match d with
  | .left => l
  | .right => r

def Side.far (d : Side) (l r : α) : α :=
  match d with
  | .left => r
  | .right => l

def Side.node (d : Side) (c : Color) (near : RbTree α) (a : α) (far : RbTree α) : RbTree α :=
  match d with
  | .left => .node c near a far
  | .right => .node c far a near

def RbTree.isRed : RbTree α → Bool
  | .node .red _ _ _ => true
  | _ => false

def RbTree.setBlack : RbTree α → RbTree α
  | .nil => .nil
  | .node _ l a r => .node .black l a r

def RbTree.inorder : RbTree α → List α
  | .nil => []
  | .node _ l a r => l.inorder ++ a :: r.inorder

/-- A node above the current one: the side of the child the path goes through, and the other child. -/
structure Frame (α : Type) where
  side : Side
  color : Color
  elem : α
  sibling : RbTree α

abbrev Path (α : Type) := List (Frame α)

def Frame.plug (f : Frame α) (t : RbTree α) : RbTree α := f.side.node f.color t f.elem f.sibling

def zip : Path α → RbTree α → RbTree α
  | [], t => t
  | f :: p, t => zip p (f.plug t)

/-- `rb_insert_color` at the red node `l a r`. -/
def rbInsertColor : Path α → RbTree α → α → RbTree α → Option (RbTree α)
  | [], l, a, r => some (.node .black l a r)
  | f :: p, l, a, r =>
    match f.color, p with
    | .black, _ => some (zip (f :: p) (.node .red l a r)).setBlack
    | .red, [] => none
    | .red, g :: rest =>
      let d := g.side
      let uncle := g.sibling
      if uncle.isRed then
        -- the grandparent becomes red and the loop goes on from it
        let parent := f.side.node .black (.node .red l a r) f.elem f.sibling
        match d with
        | .left => rbInsertColor rest parent g.elem uncle.setBlack
        | .right => rbInsertColor rest uncle.setBlack g.elem parent
      else if f.side = d then
        some (zip rest
          (d.node .black (.node .red l a r) f.elem (d.node .red f.sibling g.elem uncle))).setBlack
      else
        -- the node is an inner grandchild: it is rotated over its parent first
        some (zip rest (d.node .black (d.node .red f.sibling f.elem (d.near l r)) a
          (d.node .red (d.far l r) g.elem uncle))).setBlack

/-- The descent by which a caller finds the place of a new node: at each node `dir` chooses the child, or
fails. -/
def descend {ε : Type} (dir : α → Except ε Side) : RbTree α → Path α → Except ε (Path α)
  | .nil, p => .ok p
  | .node c l b r, p =>
    match dir b with
    | .error e => .error e
    | .ok .left => descend dir l (⟨.left, c, b, r⟩ :: p)
    | .ok .right => descend dir r (⟨.right, c, b, l⟩ :: p)

/-- `rb_link_node` at the end of a path, then `rb_insert_color`. -/
def rbInsert (p : Path α) (a : α) : Option (RbTree α) := rbInsertColor p .nil a .nil

/-! ## Removal -/

/-- The rotations of `__rb_erase_color` when `other` has a red child; `c` is the parent's colour. -/
def eraseRotate (d : Side) (c : Color) (x : RbTree α) (parent : α) (near : RbTree α) (other : α)
    (far : RbTree α) : Option (RbTree α) :=
  if far.isRed then some (d.node c (d.node .black x parent near) other far.setBlack)
  else
    match near with
    | .nil => none
    | .node _ nl n nr =>
      some (d.node c (d.node .black x parent (d.near nl nr)) n (d.node .black (d.far nl nr) other far))

/-- `__rb_erase_color` at the subtree `x`, which lacks one black node. -/
def rbEraseColor : Path α → RbTree α → Option (RbTree α)
  | [], x => some x.setBlack
  | f :: p, x =>
    if x.isRed then some (zip (f :: p) x.setBlack)
    else
      let d := f.side
      match f.sibling with
      | .nil => none
      | .node .black ol o or =>
        if ol.isRed || or.isRed then
          (eraseRotate d f.color x f.elem (d.near ol or) o (d.far ol or)).map fun t =>
            (zip p t).setBlack
        else rbEraseColor p (d.node f.color x f.elem (.node .red ol o or))
      | .node .red ol o or =>
        -- `other` is rotated over the parent, which becomes red; its near child is the new `other`
        match d.near ol or with
        | .nil => none
        | .node _ nl n nr =>
          if nl.isRed || nr.isRed then
            (eraseRotate d .red x f.elem (d.near nl nr) n (d.far nl nr)).map fun t =>
              (zip p (d.node .black t o (d.far ol or))).setBlack
          else
            -- the parent is red, so the loop stops there and colours it black
            some (zip p (d.node .black (d.node .black x f.elem (.node .red nl n nr)) o
              (d.far ol or)))

/-- The leftmost node below `c l a r`, with its right child and the path up from it. -/
def leftmost : Path α → Color → RbTree α → α → RbTree α → Color × α × RbTree α × Path α
  | p, c, .nil, a, r => (c, a, r, p)
  | p, c, .node c' l' a' r', a, r => leftmost (⟨.left, c, a, r⟩ :: p) c' l' a' r'

/-- The removal of `rb_erase` proper: `child` takes the place of a node of colour `c`. -/
def rbUnlink (p : Path α) (c : Color) (child : RbTree α) : Option (RbTree α) :=
  match c with
  | .red => some (zip p child)
  | .black => rbEraseColor p child

/-- `rb_erase` of the node `c l _ r` at the end of the path `p`. -/
def rbEraseAt (p : Path α) (c : Color) : RbTree α → RbTree α → Option (RbTree α)
  | .nil, r => rbUnlink p c r
  | l, .nil => rbUnlink p c l
  | l, .node rc rl ra rr =>
    let (c', a', child, q) := leftmost [] rc rl ra rr
    rbUnlink (q ++ ⟨.right, c, a', l⟩ :: p) c' child

def locate [DecidableEq α] (a : α) : RbTree α → Path α → Option (Path α × Color × RbTree α × RbTree α)
  | .nil, _ => none
  | .node c l b r, p =>
    if a = b then some (p, c, l, r)
    else (locate a l (⟨.left, c, b, r⟩ :: p)).or (locate a r (⟨.right, c, b, l⟩ :: p))

/-- `rb_erase`; `none` also when the node is not in the tree. -/
def rbErase [DecidableEq α] (a : α) (t : RbTree α) : Option (RbTree α) :=
  match locate a t [] with
  | none => none
  | some (p, c, l, r) => rbEraseAt p c l r

def rbNext [DecidableEq α] (a : α) (t : RbTree α) : Option α :=
  (t.inorder.dropWhile fun b => b ≠ a).tail.head?

end G3Mod.Rbtree
