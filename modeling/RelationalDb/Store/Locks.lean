import RelationalDb.Failure
import RelationalDb.SortedMap

/-!
# Write locks
-/

namespace RelationalDb

structure Locks where
  holders : SortedMap String Nat := {}

namespace Locks

def holder? (l : Locks) (table : String) : Option Nat :=
  l.holders.get? table

/-- Take the lock of a table that is free, or that the transaction holds already. -/
def acquire (l : Locks) (table : String) (transaction : Nat) : Outcome Locks :=
  match l.holder? table with
  | none => .ok { holders := l.holders.insert table transaction }
  | some holder =>
      if holder = transaction then .ok l
      else .error (.operation (.tableLocked table holder))

def release (l : Locks) (transaction : Nat) : Locks :=
  { holders := ⟨l.holders.entries.filter fun e => e.2 != transaction⟩ }

end Locks

end RelationalDb
