import PropertyTables.Hierarchy.Walk

/-! # Subtyping

* `Registry.supertypes`: the declared supertypes of a type, in the order in which subtyping tries
  them.
* `Registry.reaches`: whether a type is among another's supertypes of any distance.
* `Registry.isAssignable`: whether a value of one type may stand where another is expected. Classes
  and interfaces follow the hierarchy, arrays follow their components, the root type accepts all but
  primitives, and a primitive accepts itself alone.
-/

namespace PropertyTables
set_option autoImplicit false

namespace Registry

/-- The declared supertypes: the last interface first, the superclass at the end. -/
def supertypes (r : Registry) (id : TypeId) : List TypeId :=
  (r.superinterfaces id).reverse ++ (r.superclass? id).toList

/-- Whether `target` comes before the first identity without a declaration; a fault if such an
identity comes first. -/
def findAmong (r : Registry) (target : TypeId) : List TypeId → Except Fault Bool
  | [] => .ok false
  | id :: rest =>
    if id = target then .ok true
    else match r.find id with
      | .error fault => .error fault
      | .ok _ => r.findAmong target rest

/-- Whether a walk over the supertypes of `source` meets `target`. -/
def reaches (r : Registry) (target source : TypeId) : Except Fault Bool :=
  r.findAmong target (preorder (fun t => t) r.supertypes r.size [] [source])

/-- Whether a value of type `source` may stand where a `target` is expected. -/
def isAssignable (r : Registry) (target source : TypeId) : Except Fault Bool :=
  if target = source then .ok true
  else
    match _found : r.find? target, r.find? source with
    | none, _ => .error (.typeNotFound target)
    | _, none => .error (.typeNotFound source)
    | some t, some s =>
      if t.flavor.isPrimitive || s.flavor.isPrimitive then .ok false
      else if target = .object then .ok true
      else
        match _array : t.flavor, s.flavor with
        | .array component, .array element => r.isAssignable component element
        | .array _, _ => .ok false
        | _, .array _ => .ok false
        | _, _ => r.reaches target source
termination_by target.index
decreasing_by exact component_lt_of_find? _found _array

end Registry

end PropertyTables
