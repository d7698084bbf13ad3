import RelationalDb.Query.Predicate
import RelationalDb.Row

/-!
# Relations between rows

A relation is a list of entries over a list of tables.  An entry holds one row of each
table, in the order of the tables, and, once entries have been aggregated, the values of
the aggregates.
-/

namespace RelationalDb

structure Entry where
  rows : List Row := []
  aggregates : List Value := []
deriving Inhabited

structure Relation where
  tables : List String
  entries : List Entry

def rowAmong (tables : List String) (table : String) (rows : List Row) : Option Row :=
  (tables.findIdx? (· == table)).bind fun position => rows[position]?

def Entry.assignment (tables : List String) (e : Entry) : Assignment := fun c =>
  (rowAmong tables c.table e.rows).bind fun row => row.values[c.position]?

def Entry.append (l r : Entry) : Entry :=
  { rows := l.rows ++ r.rows }

namespace Relation

def ofRows (table : String) (rows : List Row) : Relation :=
  { tables := [table], entries := rows.map fun row => { rows := [row] } }

def size (r : Relation) : Nat :=
  r.entries.length

def value? (r : Relation) (e : Entry) (c : ColumnRef) : Option Value :=
  e.assignment r.tables c

def valueOrNull (r : Relation) (e : Entry) (c : ColumnRef) : Value :=
  (r.value? e c).getD .null

def filter (r : Relation) (p : Predicate) : Relation :=
  { r with entries := r.entries.filter fun e => p.eval (e.assignment r.tables) }

def skip (r : Relation) (count : Nat) : Relation :=
  { r with entries := r.entries.drop count }

def limit (r : Relation) (count : Nat) : Relation :=
  { r with entries := r.entries.take count }

/-- Every entry of one relation with every entry of another, the left one leading. -/
def product (l r : Relation) : Relation :=
  { tables := l.tables ++ r.tables
    entries := l.entries.flatMap fun a => r.entries.map fun b => a.append b }

end Relation

end RelationalDb
