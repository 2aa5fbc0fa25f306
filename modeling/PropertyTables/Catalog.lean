import PropertyTables.Table.Build

/-! # Catalogs of tables

* `Held`: a table with an identity of its own, so that two lookups can be told to give one table.
* `Catalog`: the tables that earlier lookups built, and whether they are used.
* `findTable`: the table of a type, kept or newly built. While a catalog is not enabled it neither
  gives nor takes tables, and what failed is not remembered.
* `preload`: looks types up in order, up to the first fault.
-/

namespace PropertyTables
set_option autoImplicit false

/-- A table and its number; every table built gets another number. -/
structure Held where
  serial : Nat
  table : Table

/-- The tables kept for later lookups, and the limit under which they are built. -/
structure Catalog where
  enabled : Bool := true
  limit : Nat := Table.defaultLimit
  kept : List (TypeId × Held) := []

/-- The number of tables kept. -/
def Catalog.size (c : Catalog) : Nat := c.kept.length

/-- The table that a lookup finds without building. -/
def Catalog.find? (c : Catalog) (type : TypeId) : Option Held :=
  if c.enabled then c.kept.lookup type else none

/-- Keeps a table, if the catalog is enabled. -/
def Catalog.keep (c : Catalog) (type : TypeId) (held : Held) : Catalog :=
  if c.enabled then { c with kept := (type, held) :: c.kept } else c

/-- A catalog that is switched on or off; the tables that it keeps stay. -/
def Catalog.switched (c : Catalog) (enabled : Bool) : Catalog := { c with enabled := enabled }

/-- A registry and one catalog over it; `built` counts the tables built so far. -/
structure Library where
  registry : Registry
  catalog : Catalog
  built : Nat

/-- A computation that looks tables up. Types interned and tables kept before a fault stay. -/
abbrev Browsing := ExceptT Fault (StateM Library)

namespace Browsing

/-- A computation that only lets the registry grow. -/
def growing {α : Type} (x : Growing α) : Browsing α :=
  ExceptT.mk fun lib =>
    let (result, registry) := x.run.run lib.registry
    (result, { lib with registry := registry })

/-- An answer that needs no state. -/
def lift {α : Type} (x : Except Fault α) : Browsing α := ExceptT.mk fun lib => (x, lib)

end Browsing

/-- Builds a table under a new number. -/
def buildTable (type : TypeId) : Browsing Held := do
  let table ← Browsing.growing (Table.build type (← get).catalog.limit)
  let held : Held := ⟨(← get).built, table⟩
  modify fun lib => { lib with built := lib.built + 1 }
  return held

/-- The table of a type: the one kept, or a new one that is then kept. -/
def findTable (type : TypeId) : Browsing Held := do
  match (← get).catalog.find? type with
  | some held => return held
  | none =>
    let held ← buildTable type
    modify fun lib => { lib with catalog := lib.catalog.keep type held }
    return held

/-- Looks up each type in turn. -/
def preload : List TypeId → Browsing Unit
  | [] => return
  | type :: rest => do
    let _ ← findTable type
    preload rest

end PropertyTables
