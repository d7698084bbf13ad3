import RelationalDb.Value

/-!
# Ranges of keys

A range says which keys of an index are wanted.  It is read in two ways: as a set of
keys (`KeyRange.contains`) and as a pair of edges between which an ordered list of keys
is scanned (`KeyRange.lower`, `KeyRange.upper`).
-/

namespace RelationalDb

/-- A range of keys.  A flag beside an end tells whether the end itself is left out. -/
inductive KeyRange (κ : Type)
  | all
  | only (key : κ)
  | above (key : κ) (exclusive : Bool)
  | below (key : κ) (exclusive : Bool)
  | between (lower upper : κ) (lowerExclusive upperExclusive : Bool)
deriving BEq, Inhabited

inductive Edge (κ : Type)
  | unbounded
  | including (key : κ)
  | excluding (key : κ)

namespace Edge

variable {κ : Type}

def ofKey (key : κ) (exclusive : Bool) : Edge κ :=
  if exclusive then excluding key else including key

/-- Does the key lie on the inner side of this lower edge? -/
def admitsFromBelow [Ord κ] : Edge κ → κ → Bool
  | unbounded, _ => true
  | including e, k => compare k e != .lt
  | excluding e, k => compare k e == .gt

def admitsFromAbove [Ord κ] : Edge κ → κ → Bool
  | unbounded, _ => true
  | including e, k => compare k e != .gt
  | excluding e, k => compare k e == .lt

end Edge

namespace KeyRange

variable {κ : Type}

def lower : KeyRange κ → Edge κ
  | all => .unbounded
  | only k => .including k
  | above k exclusive => .ofKey k exclusive
  | below _ _ => .unbounded
  | between k _ exclusive _ => .ofKey k exclusive

def upper : KeyRange κ → Edge κ
  | all => .unbounded
  | only k => .including k
  | above _ _ => .unbounded
  | below k exclusive => .ofKey k exclusive
  | between _ k _ exclusive => .ofKey k exclusive

def endpoints : KeyRange κ → List κ
  | all => []
  | only k => [k]
  | above k _ => [k]
  | below k _ => [k]
  | between l u _ _ => [l, u]

/-- Is the range known to hold no key, its ends being in the wrong order, or being equal with
one of them left out? -/
def isEmpty [Ord κ] [BEq κ] : KeyRange κ → Bool
  | between l u lowerExclusive upperExclusive =>
      compare l u == .gt || (l == u && (lowerExclusive || upperExclusive))
  | _ => false

def contains [Ord κ] [BEq κ] (r : KeyRange κ) (k : κ) : Bool :=
  match r with
  | all => true
  | only e => k == e
  | above e exclusive => (Edge.ofKey e exclusive).admitsFromBelow k
  | below e exclusive => (Edge.ofKey e exclusive).admitsFromAbove k
  | between l u lowerExclusive upperExclusive =>
      (Edge.ofKey l lowerExclusive).admitsFromBelow k &&
        (Edge.ofKey u upperExclusive).admitsFromAbove k

/-- The same range over other keys, provided that every end can be carried over; the lower end
is tried first. -/
def mapM {ι : Type} {m : Type → Type} [Monad m] (f : κ → m ι) : KeyRange κ → m (KeyRange ι)
  | all => return .all
  | only k => return .only (← f k)
  | above k exclusive => return .above (← f k) exclusive
  | below k exclusive => return .below (← f k) exclusive
  | between l u lowerExclusive upperExclusive =>
      return .between (← f l) (← f u) lowerExclusive upperExclusive

end KeyRange

end RelationalDb
