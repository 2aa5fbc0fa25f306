import PropertyTables.Proofs.Catalog.Lookups
import PropertyTables.Workspace

/-! # Calls to a library

* `Library.Call`: what can be asked of a library or done to it; `Library.history` lists the lookups
  that some calls lead to, those on the way of a path included.
* `Workspace.library_afterAll`: what calls do to the library of a catalog is what they do in the
  workspace that has the catalog. They leave all other catalogs alone, `Workspace.catalog_afterAll`.
* `Library.modeAfter`: the mode that calls leave a catalog in, by the last switch among them.
-/

namespace PropertyTables
set_option autoImplicit false

/-! ## Lookups and calls -/

/-- A lookup in a run: what was looked up, what came of it, and the catalog before and after. -/
structure Lookup where
  type : TypeId
  before : Catalog
  outcome : Except Fault Held
  after : Catalog

/-- Whether a lookup gave a table and the catalog was enabled. -/
def Lookup.isKept (l : Lookup) : Bool := l.before.enabled && l.outcome.isOk

namespace Library

def afterLookup (lib : Library) (type : TypeId) : Library := ((findTable type).eval lib).2

/-- The lookup of a type as an entry of the history. -/
def lookup (lib : Library) (type : TypeId) : Lookup where
  type := type
  before := lib.catalog
  outcome := ((findTable type).eval lib).1
  after := (lib.afterLookup type).catalog

end Library

/-- The lookups that a plan leads to; none follows one that fails. -/
def Plan.lookups {α : Type} : Plan α → Library → List Lookup
  | done _, _ => []
  | lookUp type next, lib =>
    lib.lookup type :: match (lib.lookup type).outcome with
      | .ok held => (next held).lookups (lib.afterLookup type)
      | .error _ => []

namespace Library

/-- What happens to a library from outside: a question, the way to the table of a property, a
preload, switching the catalog on or off, or an operation on the registry. -/
inductive Call
  | request (q : Request)
  | property (t : Table) (name : String)
  | preload (types : List TypeId)
  | switch (enabled : Bool)
  | operation (op : Registry.Operation)

def switched (lib : Library) (enabled : Bool) : Library :=
  { lib with catalog := lib.catalog.switched enabled }

def after (lib : Library) : Call → Library
  | .request q => (q.answer.eval lib).2
  | .property t name => ((t.propertyTable name).eval lib).2
  | .preload types => ((PropertyTables.preload types).eval lib).2
  | .switch enabled => lib.switched enabled
  | .operation op => lib.withRegistry (op.apply lib.registry)

def afterAll (lib : Library) (calls : List Call) : Library := calls.foldl after lib

def lookups (lib : Library) : Call → List Lookup
  | .request q => q.plan.lookups lib
  | .property t name => (t.propertyPlan name).lookups lib
  | .preload types => (preloadPlan types).lookups lib
  | .switch _ => []
  | .operation _ => []

/-- The lookups that some calls lead to, the first one first. -/
def history (lib : Library) : List Call → List Lookup
  | [] => []
  | call :: rest => lib.lookups call ++ (lib.after call).history rest

/-- What a call switches the catalog to, if it is a switch. -/
def Call.mode? : Call → Option Bool
  | .switch enabled => some enabled
  | _ => none

/-- The mode that some calls leave a catalog in: what the last switch among them says, or the mode
before if none does. -/
def modeAfter (enabled : Bool) (calls : List Call) : Bool :=
  (calls.filterMap Call.mode?).getLastD enabled

theorem modeAfter_cons (enabled : Bool) (call : Call) (rest : List Call) :
    modeAfter enabled (call :: rest) = modeAfter (call.mode?.getD enabled) rest := by
  cases call with
  | switch b => exact List.getLastD_cons
  | _ => rfl

end Library

/-! ## Calls in a workspace -/

namespace Workspace

/-- The library of a catalog. -/
def library (w : Workspace) (id : CatalogId) : Library := ⟨w.registry, w.catalog id, w.built⟩

/-- What a call to the library of a catalog does to the workspace. -/
def after (w : Workspace) (id : CatalogId) : Library.Call → Workspace
  | .request q => ((Working.browsing id q.answer).run.run w).2
  | .property t name => ((Working.browsing id (t.propertyTable name)).run.run w).2
  | .preload types => ((Working.browsing id (preload types)).run.run w).2
  | .switch enabled => w.setEnabled id enabled
  | .operation op => { w with registry := op.apply w.registry }

def afterAll (w : Workspace) (id : CatalogId) (calls : List Library.Call) : Workspace :=
  calls.foldl (·.after id) w

variable {w : Workspace} {id other : CatalogId}

/-- A catalog that is added is that of a library which keeps no other tables. -/
theorem library_addCatalog (w : Workspace) (c : Catalog) :
    (w.addCatalog c).2.library (w.addCatalog c).1 = ⟨w.registry, c, w.built⟩ := by
  have last : (w.addCatalog c).2.catalog (w.addCatalog c).1 = c := by
    simp [addCatalog, catalog]
  rw [library, last]
  rfl

theorem used_addCatalog (w : Workspace) (c : Catalog) :
    (w.addCatalog c).1.index < (w.addCatalog c).2.catalogs.length := by
  simp [addCatalog]

theorem index_ne (differs : other ≠ id) : id.index ≠ other.index :=
  fun same => differs (congrArg CatalogId.mk same.symm)

/-- What is looked up in a catalog is done to its library. -/
theorem library_browsing {α : Type} (x : Browsing α) (used : id.index < w.catalogs.length) :
    ((Working.browsing id x).run.run w).2.library id = (x.eval (w.library id)).2 := by
  show Library.mk (x.eval (w.library id)).2.registry
    (((w.catalogs.set id.index (x.eval (w.library id)).2.catalog)[id.index]?).getD {})
    (x.eval (w.library id)).2.built = _
  rw [List.getElem?_set_self used]
  rfl

theorem catalog_browsing {α : Type} (x : Browsing α) (differs : other ≠ id) :
    ((Working.browsing id x).run.run w).2.catalog other = w.catalog other := by
  show ((w.catalogs.set id.index (x.eval (w.library id)).2.catalog)[other.index]?).getD {} = _
  rw [List.getElem?_set_ne (index_ne differs)]
  rfl

/-- Switching a catalog is done to its library. -/
theorem library_setEnabled (enabled : Bool) (used : id.index < w.catalogs.length) :
    (w.setEnabled id enabled).library id = (w.library id).switched enabled := by
  have here : (w.setEnabled id enabled).catalog id = (w.catalog id).switched enabled := by
    simp only [catalog, setEnabled, List.getElem?_modify_eq, List.getElem?_eq_getElem used]
    rfl
  rw [library, here]
  rfl

theorem catalog_setEnabled (enabled : Bool) (differs : other ≠ id) :
    (w.setEnabled id enabled).catalog other = w.catalog other := by
  show ((w.catalogs.modify id.index (·.switched enabled))[other.index]?).getD {} = _
  rw [List.getElem?_modify_ne _ _ (index_ne differs)]
  rfl

/-! ### One call, and all calls -/

theorem length_after (w : Workspace) (id : CatalogId) (call : Library.Call) :
    (w.after id call).catalogs.length = w.catalogs.length := by
  cases call with
  | switch enabled => exact List.length_modify _ _ _
  | operation op => rfl
  | _ => exact List.length_set

theorem library_after (call : Library.Call) (used : id.index < w.catalogs.length) :
    (w.after id call).library id = (w.library id).after call := by
  cases call with
  | switch enabled => exact library_setEnabled enabled used
  | operation op => rfl
  | _ => exact library_browsing _ used

theorem catalog_after (call : Library.Call) (differs : other ≠ id) :
    (w.after id call).catalog other = w.catalog other := by
  cases call with
  | switch enabled => exact catalog_setEnabled enabled differs
  | operation op => rfl
  | _ => exact catalog_browsing _ differs

/-- Calls do to the library of a catalog what they do in its workspace. -/
theorem library_afterAll (calls : List Library.Call) (used : id.index < w.catalogs.length) :
    (w.afterAll id calls).library id = (w.library id).afterAll calls := by
  induction calls generalizing w with
  | nil => rfl
  | cons call rest ih =>
    have still : id.index < (w.after id call).catalogs.length := w.length_after id call ▸ used
    rw [Library.afterAll, List.foldl_cons, ← library_after call used]
    exact ih still

theorem catalog_afterAll (calls : List Library.Call) (differs : other ≠ id) :
    (w.afterAll id calls).catalog other = w.catalog other := by
  induction calls generalizing w with
  | nil => rfl
  | cons call rest ih => exact ih.trans (catalog_after call differs)

end Workspace

end PropertyTables
