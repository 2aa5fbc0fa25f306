import PropertyTables.Hierarchy.Walk

/-! # Resolution of generic types

What a declared type means as seen from an owner, usually a subtype of the declaring type.

* `BoundType`: a type together with what its variables stand for.
* `Registry.boundSupertypes`: the supertypes of such a type, with the type arguments written in its
  supertype clauses passed on.
* `Registry.bindings`: what the variables of a declaring type stand for in an owner: the bindings
  on the first path that a depth-first walk finds, the fallbacks if there is none.
* `Registry.resolveReturn`, `Registry.resolveParams`, `Registry.resolveField`: member types.
-/

namespace PropertyTables
set_option autoImplicit false

/-- A type and what its variables stand for. -/
structure BoundType where
  id : TypeId
  env : Bindings

namespace Registry

/-! ## Supertypes with their bindings -/

/-- The type parameters of a type; none without a declaration. -/
def typeParams (r : Registry) (id : TypeId) : List TypeParam :=
  (r.find? id).elim [] (·.typeParams)

/-- What the variables of a supertype stand for: the arguments it is written with, or the fallbacks
if it is written without arguments or with another number of them than it has parameters. -/
def clauseBindings (r : Registry) (env : Bindings) (raw : TypeId) (args : List GenericType) :
    Bindings :=
  let params := r.typeParams raw
  if args ≠ [] ∧ args.length = params.length then
    .ofArgs params (GenericType.instantiateAll env args)
  else .fallbacks params

/-- The supertype that a clause names, with its bindings. -/
def boundSupertype? (r : Registry) (env : Bindings) (clause : GenericType) : Option BoundType :=
  clause.raw?.map fun raw => ⟨raw, r.clauseBindings env raw clause.args⟩

/-- The supertypes of a type: its superclass, then its interfaces, each with its bindings. -/
def boundSupertypes (r : Registry) (b : BoundType) : List BoundType :=
  (r.find? b.id).elim [] fun d => d.clauses.filterMap (r.boundSupertype? b.env)

/-- A type with the fallbacks of its parameters. -/
def unbound (r : Registry) (id : TypeId) : BoundType := ⟨id, .fallbacks (r.typeParams id)⟩

/-! ## Bindings along a path -/

/-- The bindings of the first node of type `declaring`; a fault if an undeclared type comes before
it. -/
def firstBindings (r : Registry) (declaring : TypeId) :
    List BoundType → Except Fault (Option Bindings)
  | [] => .ok none
  | b :: rest =>
    match r.find b.id with
    | .error fault => .error fault
    | .ok _ => if b.id = declaring then .ok (some b.env) else r.firstBindings declaring rest

/-- What the variables of `declaring` stand for in `owner`. -/
def bindings (r : Registry) (owner declaring : TypeId) : Except Fault Bindings := do
  match ← r.firstBindings declaring
      (preorder (·.id) r.boundSupertypes r.size [] [r.unbound owner]) with
  | some env => return env
  | none => return .fallbacks (← r.find declaring).typeParams

/-- `bindings` for the declaring type of a method, and the fallbacks of the method's own variables
before them. -/
def methodBindings (r : Registry) (m : Method) (owner : TypeId) : Except Fault Bindings := do
  return (← r.bindings owner m.declaring).extend m.typeParams

/-! ## Member types -/

/-- The return type of a method as seen from `owner`. -/
def resolveReturn (r : Registry) (m : Method) (owner : TypeId) : Except Fault GenericType := do
  return m.returns.instantiate (← r.methodBindings m owner)

/-- The parameter types of a method as seen from `owner`. -/
def resolveParams (r : Registry) (m : Method) (owner : TypeId) :
    Except Fault (List GenericType) := do
  return m.params.map (GenericType.instantiate (← r.methodBindings m owner))

/-- The type of a field as seen from `owner`. -/
def resolveField (r : Registry) (f : Field) (owner : TypeId) : Except Fault GenericType := do
  return f.type.instantiate (← r.bindings owner f.declaring)

end Registry

end PropertyTables
