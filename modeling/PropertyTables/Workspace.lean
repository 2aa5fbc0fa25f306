import PropertyTables.Settings

/-! # Workspaces

* `Workspace`: a registry, the objects of its types and any number of catalogs over it.
* `Working`: what happens in a workspace; `growing`, `running` and `browsing` bring in what happens
  in a part of it.
* `Working.reserve`, `Working.publish`, `Working.allocate`, `Working.reflect`: types, objects and
  tables of a workspace.
-/

namespace PropertyTables
set_option autoImplicit false

/-- A world and the catalogs over its registry; `built` counts the tables built so far. -/
structure Workspace extends World where
  catalogs : List Catalog
  built : Nat

/-- The place of a catalog in its workspace. -/
structure CatalogId where
  index : Nat
  deriving DecidableEq, Repr

namespace Workspace

/-- The workspace that holds the built-in types only. -/
def initial : Workspace where
  registry := .initial
  heap := .empty
  catalogs := []
  built := 0

/-- The catalog of an identity; an unused identity is a fresh catalog. -/
def catalog (w : Workspace) (id : CatalogId) : Catalog := w.catalogs[id.index]?.getD {}

/-- Adds a catalog. -/
def addCatalog (w : Workspace) (c : Catalog) : CatalogId × Workspace :=
  (⟨w.catalogs.length⟩, { w with catalogs := w.catalogs ++ [c] })

/-- Switches a catalog on or off. -/
def setEnabled (w : Workspace) (id : CatalogId) (enabled : Bool) : Workspace :=
  { w with catalogs := w.catalogs.modify id.index (·.switched enabled) }

end Workspace

/-- A computation in a workspace. What was changed before a fault stays changed. -/
abbrev Working := ExceptT Fault (StateM Workspace)

namespace Working

/-! ## Parts of a workspace -/

/-- A computation that only lets the registry grow. -/
def growing {α : Type} (x : Growing α) : Working α :=
  ExceptT.mk fun w =>
    let (result, registry) := x.run.run w.registry
    (result, { w with registry := registry })

/-- A computation that runs members. -/
def running {α : Type} (x : Running α) : Working α :=
  ExceptT.mk fun w =>
    let (result, world) := x.run.run w.toWorld
    (result, { w with toWorld := world })

/-- A computation that looks tables up in one of the catalogs. -/
def browsing {α : Type} (id : CatalogId) (x : Browsing α) : Working α :=
  ExceptT.mk fun w =>
    let (result, lib) := x.run.run ⟨w.registry, w.catalog id, w.built⟩
    (result, { w with
      registry := lib.registry
      catalogs := w.catalogs.set id.index lib.catalog
      built := lib.built })

/-! ## Types, objects and tables -/

/-- Hands out the next identity, for a type that is yet to be written. -/
def reserve (space name : String) (kind : DraftKind) : Working Draft := do
  let w ← get
  let (draft, registry) := w.registry.reserve space name kind
  set { w with registry := registry }
  return draft

/-- Declares the type that a draft describes. -/
def publish (draft : Draft) : Working TypeId := do
  let registry ← growing (Growing.read (·.publish draft))
  modify fun w => { w with registry := registry }
  return draft.id

/-- Makes an object known. -/
def addObject (o : Instance) : Working ObjectId := do
  let w ← get
  let (id, heap) := w.heap.add o
  set { w with heap := heap }
  return id

/-- A new object of a class, on which no constructor ran. -/
def allocate (type : TypeId) : Working ObjectId := do
  addObject (← growing (Growing.read (·.allocate type)))

/-- A new table that no catalog keeps. -/
def reflect (type : TypeId) (limit : Nat) : Working Held := do
  let table ← growing (Table.build type limit)
  let held : Held := ⟨(← get).built, table⟩
  modify fun w => { w with built := w.built + 1 }
  return held

end Working

end PropertyTables
