/-!
# Maps kept in key order

A `SortedMap` is an association list in ascending key order.  Two keys are the same
key when they compare equal; the comparison is the only thing asked of the key type.
The list of entries is the view through which every operation is described.
-/

namespace RelationalDb

universe u v

/-- A map from keys to values, listed in ascending key order. -/
structure SortedMap (κ : Type u) (α : Type v) where
  entries : List (κ × α) := []
deriving Inhabited, BEq

namespace SortedMap

variable {κ : Type u} {α : Type v}

/-!
## Entry lists
-/

def lookup [Ord κ] (k : κ) : List (κ × α) → Option α
  | [] => none
  | (k', a) :: rest => if compare k k' = .eq then some a else lookup k rest

/-- Put an entry at its place; an entry with the same key keeps its key and takes the value. -/
def insertEntry [Ord κ] (k : κ) (a : α) : List (κ × α) → List (κ × α)
  | [] => [(k, a)]
  | (k', a') :: rest =>
      match compare k k' with
      | .lt => (k, a) :: (k', a') :: rest
      | .eq => (k', a) :: rest
      | .gt => (k', a') :: insertEntry k a rest

def eraseEntry [Ord κ] (k : κ) : List (κ × α) → List (κ × α)
  | [] => []
  | (k', a) :: rest =>
      if compare k k' = .eq then rest else (k', a) :: eraseEntry k rest

/-!
## Operations
-/

def empty : SortedMap κ α := ⟨[]⟩

def get? [Ord κ] (m : SortedMap κ α) (k : κ) : Option α :=
  lookup k m.entries

def contains [Ord κ] (m : SortedMap κ α) (k : κ) : Bool :=
  (m.get? k).isSome

def insert [Ord κ] (m : SortedMap κ α) (k : κ) (a : α) : SortedMap κ α :=
  ⟨insertEntry k a m.entries⟩

def erase [Ord κ] (m : SortedMap κ α) (k : κ) : SortedMap κ α :=
  ⟨eraseEntry k m.entries⟩

/-- Insert a list of entries, the last one under a key winning. -/
def insertAll [Ord κ] (m : SortedMap κ α) (entries : List (κ × α)) : SortedMap κ α :=
  entries.foldl (fun m e => m.insert e.1 e.2) m

def ofList [Ord κ] (entries : List (κ × α)) : SortedMap κ α :=
  empty.insertAll entries

def keys (m : SortedMap κ α) : List κ :=
  m.entries.map (·.1)

def values (m : SortedMap κ α) : List α :=
  m.entries.map (·.2)

def size (m : SortedMap κ α) : Nat :=
  m.entries.length

def isEmpty (m : SortedMap κ α) : Bool :=
  m.entries.isEmpty

/-!
## What the operations do to the entries
-/

@[simp] theorem entries_empty : (empty : SortedMap κ α).entries = [] := rfl

@[simp] theorem entries_insert [Ord κ] (m : SortedMap κ α) (k : κ) (a : α) :
    (m.insert k a).entries = insertEntry k a m.entries := rfl

@[simp] theorem entries_erase [Ord κ] (m : SortedMap κ α) (k : κ) :
    (m.erase k).entries = eraseEntry k m.entries := rfl

end SortedMap

end RelationalDb
