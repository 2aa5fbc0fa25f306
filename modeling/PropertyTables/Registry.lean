import PropertyTables.Declaration
import PropertyTables.Fault
import PropertyTables.Index

/-! # Registries

* `Registry`: the declared types by identity, and the identities by full name. An identity may be
  reserved before its type is declared.
* `Registry.find?`, `Registry.find`: the declaration of an identity, or the fault that there is
  none.
* `component_lt_of_find?`: an array type comes after its component type.
-/

namespace PropertyTables
set_option autoImplicit false

/-- The declared types, each at its identity. A slot without declaration is reserved. `names` has
the type that was last declared under a full name. -/
structure Registry where
  slots : List (Option Declaration)
  names : Index TypeId
  id_eq : ∀ (i : Nat) (d : Declaration), slots[i]? = some (some d) → d.id = ⟨i⟩

namespace Registry

/-- The number of identities handed out. -/
def size (r : Registry) : Nat := r.slots.length

/-! ## Looking up -/

/-- The declaration of an identity. -/
def find? (r : Registry) (id : TypeId) : Option Declaration := r.slots[id.index]?.join

/-- The declaration of an identity; a fault if there is none. -/
def find (r : Registry) (id : TypeId) : Except Fault Declaration :=
  match r.find? id with
  | some d => .ok d
  | none => .error (.typeNotFound id)

/-- The type last declared under a full name. -/
def findName? (r : Registry) (fullName : String) : Option TypeId := r.names.find? fullName

/-- The full name of a type. -/
def fullName (r : Registry) (id : TypeId) : Except Fault String := do
  return (← r.find id).fullName

/-- The superclass of a type; none without a declaration. -/
def superclass? (r : Registry) (id : TypeId) : Option TypeId :=
  (r.find? id).bind (·.superclass?)

/-- The interfaces of a type; none without a declaration. -/
def superinterfaces (r : Registry) (id : TypeId) : List TypeId :=
  (r.find? id).elim [] (·.superinterfaces)

theorem find?_eq_some {r : Registry} {id : TypeId} {d : Declaration} :
    r.find? id = some d ↔ r.slots[id.index]? = some (some d) := by
  rw [find?, Option.join_eq_some_iff]

theorem superclass?_of_find? {r : Registry} {id : TypeId} {d : Declaration}
    (found : r.find? id = some d) : r.superclass? id = d.superclass? := by
  rw [superclass?, found, Option.bind_some]

theorem lt_size_of_find? {r : Registry} {id : TypeId} {d : Declaration}
    (h : r.find? id = some d) : id.index < r.size := by
  obtain ⟨bound, -⟩ := List.getElem?_eq_some_iff.mp (find?_eq_some.mp h)
  exact bound

theorem id_of_find? {r : Registry} {id : TypeId} {d : Declaration} (h : r.find? id = some d) :
    d.id = id :=
  r.id_eq _ _ (find?_eq_some.mp h)

/-- An array's component has the smaller identity. -/
theorem component_lt_of_find? {r : Registry} {id component : TypeId} {d : Declaration}
    (h : r.find? id = some d) (array : d.flavor = .array component) :
    component.index < id.index :=
  id_of_find? h ▸ d.component_lt component array

end Registry

end PropertyTables
