import RelationalDb.Schema.Draft

/-!
# Catalogs

A catalog is a named and numbered set of tables in the order of their declaration.
-/

namespace RelationalDb

structure Catalog where
  name : String
  version : Nat
  tables : List Table := []

namespace Catalog

def start (name : String) (version : Nat) : Outcome Catalog := do
  checkName name
  return { name := name, version := version }

def addTable (c : Catalog) (t : Table) : Outcome Catalog :=
  if c.tables.any fun t' => t'.name == t.name then
    .error (.schema (.tableExists t.name))
  else .ok { c with tables := c.tables ++ [t] }

def table (c : Catalog) (name : String) : Outcome Table :=
  match c.tables.find? fun t => t.name == name with
  | some t => .ok t
  | none => .error (.tableNotFound name)

end Catalog

end RelationalDb
