import RelationalDb.Relation.Basic

/-!
# Joins

A join compares every entry of one relation with every entry of another.  The smaller
relation is read in the outer loop, and the greater one in blocks, so that the order of
the result depends on the sizes.
-/

namespace RelationalDb

def joinBlockSize : Nat := 256

/-- Cut a list into blocks of `size` items, the last one possibly shorter. -/
def blocksOf {α : Type} (size : Nat) (items : List α) : List (List α) :=
  go items [] size
where
  go : List α → List α → Nat → List (List α)
  | [], block, _ => if block.isEmpty then [] else [block.reverse]
  | a :: rest, block, 0 => block.reverse :: go rest [a] (size - 1)
  | a :: rest, block, room + 1 => go rest (a :: block) room

/-- All pairs of an outer and an inner item, block by block of the inner ones. -/
def blockedPairs {α : Type} (size : Nat) (outer inner : List α) : List (α × α) :=
  (blocksOf size inner).flatMap fun block =>
    outer.flatMap fun a => block.map fun b => (a, b)

namespace Relation

def matches? (l r : Relation) (j : ColumnJoin) (a b : Entry) : Bool :=
  match l.value? a j.left, r.value? b j.right with
  | some v, some w => j.holdsOf v w
  | _, _ => false

/-- The pairs of entries in the order in which they are compared, the left one leading. -/
def pairsInOrder (l r : Relation) : List (Entry × Entry) :=
  if l.size ≤ r.size then blockedPairs joinBlockSize l.entries r.entries
  else (blockedPairs joinBlockSize r.entries l.entries).map fun p => (p.2, p.1)

def join (l r : Relation) (j : ColumnJoin) : Relation :=
  { tables := l.tables ++ r.tables
    entries := ((l.pairsInOrder r).filter fun p => l.matches? r j p.1 p.2).map
      fun p => p.1.append p.2 }

end Relation

end RelationalDb
