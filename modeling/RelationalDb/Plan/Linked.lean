import RelationalDb.Plan.Tree

/-!
# Trees of linked nodes

Here a tree is kept as a list of numbered nodes, each with a link to its parent and links
to its children.  Nodes are moved by changing links; a node that was taken out keeps its
number and can be put back.
-/

namespace RelationalDb

universe u

structure LinkedNode (α : Type u) where
  value : α
  parent : Option Nat := none
  children : List Nat := []

structure LinkedTree (α : Type u) where
  nodes : List (LinkedNode α)
  root : Nat := 0

namespace LinkedTree

variable {α : Type u}

def single (a : α) : LinkedTree α :=
  { nodes := [{ value := a }] }

def value? (t : LinkedTree α) (n : Nat) : Option α :=
  (t.nodes[n]?).map (·.value)

def parent (t : LinkedTree α) (n : Nat) : Option Nat :=
  (t.nodes[n]?).bind (·.parent)

def children (t : LinkedTree α) (n : Nat) : List Nat :=
  ((t.nodes[n]?).map (·.children)).getD []

def change (t : LinkedTree α) (n : Nat) (f : LinkedNode α → LinkedNode α) : LinkedTree α :=
  { t with nodes := t.nodes.modify n f }

def setValue (t : LinkedTree α) (n : Nat) (a : α) : LinkedTree α :=
  t.change n fun node => { node with value := a }

def setParent (t : LinkedTree α) (n : Nat) (parent : Option Nat) : LinkedTree α :=
  t.change n fun node => { node with parent := parent }

def setChildren (t : LinkedTree α) (n : Nat) (children : List Nat) : LinkedTree α :=
  t.change n fun node => { node with children := children }

/-!
## Edits
-/

def add (t : LinkedTree α) (a : α) : Nat × LinkedTree α :=
  (t.nodes.length, { t with nodes := t.nodes ++ [{ value := a }] })

def insertChild (t : LinkedTree α) (parent position child : Nat) : LinkedTree α :=
  (t.setParent child (some parent)).setChildren parent
    ((t.children parent).insertIdx position child)

def addChild (t : LinkedTree α) (parent child : Nat) : LinkedTree α :=
  t.insertChild parent (t.children parent).length child

def setRoot (t : LinkedTree α) (n : Nat) : LinkedTree α :=
  { t with root := n }

/-- Cut the links between a node and its parent.  The result is the parent and the position that
the node had among its children. -/
def detach (t : LinkedTree α) (n : Nat) : Option (Nat × Nat) × LinkedTree α :=
  match t.parent n with
  | none => (none, t)
  | some parent =>
      let t := t.setParent n none
      match (t.children parent).idxOf? n with
      | none => (none, t)
      | some position =>
          (some (parent, position), t.setChildren parent ((t.children parent).eraseIdx position))

def replace (t : LinkedTree α) (old new : Nat) : LinkedTree α :=
  match t.detach old with
  | (some (parent, position), t) => t.insertChild parent position new
  | (none, t) => t.setRoot new

/-- Put a node in the place of another one, which becomes its last child. -/
def insertAbove (t : LinkedTree α) (n new : Nat) : LinkedTree α :=
  (t.replace n new).addChild new n

def insertChildren (t : LinkedTree α) (parent position : Nat) : List Nat → LinkedTree α
  | [] => t
  | child :: rest =>
      (t.insertChild parent position child).insertChildren parent (position + 1) rest

/-- Take a node out and put its children in its place.  The root can be taken out if it has
exactly one child.  The result tells whether the node was taken out. -/
def splice (t : LinkedTree α) (n : Nat) : Bool × LinkedTree α :=
  let children := t.children n
  match t.parent n, children with
  | none, [child] => (true, ((t.setChildren n []).setParent child none).setRoot child)
  | none, _ => (false, t)
  | some _, _ =>
      match (t.setChildren n []).detach n with
      | (some (parent, position), t) => (true, t.insertChildren parent position children)
      | (none, t) => (false, t.setChildren n children)

/-!
## Walks
-/

/-- The nodes below and including one, each before its children, down to the given depth. -/
def walk (t : LinkedTree α) : Nat → Nat → List Nat
  | 0, _ => []
  | depth + 1, n => n :: (t.children n).flatMap (t.walk depth)

/-- The nodes below and including one, each before its children.  No branch of a tree is longer
than the number of its nodes. -/
def preOrder (t : LinkedTree α) (n : Nat) : List Nat :=
  t.walk t.nodes.length n

def leaves (t : LinkedTree α) (n : Nat) : List Nat :=
  (t.preOrder n).filter fun m => (t.children m).isEmpty

def size (t : LinkedTree α) : Nat :=
  (t.preOrder t.root).length

def renderFrom (label : α → String) (t : LinkedTree α) : Nat → Nat → Nat → String
  | 0, _, _ => ""
  | fuel + 1, depth, n =>
      planLine depth (((t.value? n).map label).getD "") ++
        String.join ((t.children n).map (t.renderFrom label fuel (depth + 1)))

def render (label : α → String) (t : LinkedTree α) : String :=
  t.renderFrom label t.nodes.length 0 t.root

end LinkedTree

end RelationalDb
