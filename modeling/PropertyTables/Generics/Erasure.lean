import PropertyTables.Generics.Resolution

/-! # Erasure

* `GenericType.erase`: the type that a generic type is at run time. Array types are interned.
* `Method.eraseDeclared`: the erasure of a type that a method declares, for no owner in particular.
* `Signature`, `Method.signature`: name, erased parameter types and erased return type.
-/

namespace PropertyTables
set_option autoImplicit false

namespace GenericType

/-- The type at run time: arguments are dropped, and variables and wildcards become the root
type. -/
def erase : GenericType → Growing TypeId
  | named id => return id
  | applied raw _ => return raw
  | array component => do Growing.arrayOf (← component.erase)
  | typeVar _ => return .object
  | wildcard _ _ => return .object

end GenericType

/-- A method's name and erased types. Methods of one signature in a hierarchy count as one. -/
structure Signature where
  name : String
  params : List TypeId
  returns : TypeId
  deriving DecidableEq, Repr

namespace Method

/-- What type variables stand for where a method is looked at on its own: the fallbacks of its own
variables, before those of the variables of its declaring type. -/
def ownBindings (m : Method) (r : Registry) : Except Fault Bindings := do
  return .fallbacks m.typeParams ++ .fallbacks (← r.find m.declaring).typeParams

/-- The erasure of a type that the method declares. -/
def eraseDeclared (m : Method) (type : GenericType) : Growing TypeId := do
  (type.instantiate (← Growing.read m.ownBindings)).erase

/-- The erased signature: the parameters are erased in order, then the return type. -/
def signature (m : Method) : Growing Signature := do
  let params ← m.params.mapM m.eraseDeclared
  let returns ← m.eraseDeclared m.returns
  return ⟨m.name, params, returns⟩

end Method

end PropertyTables
