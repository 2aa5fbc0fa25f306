import PropertyTables.TypeId

/-! # Generic types

* `GenericType`: a type as a declaration writes it, with type arguments, variables and wildcards.
* `TypeParam`: a declared type variable and its bounds.
* `GenericType.instantiate`: replaces variables by what a set of bindings gives them. The lemma
  `instantiateAll_eq_map` says that lists of types are treated element by element.
-/

namespace PropertyTables
set_option autoImplicit false

/-- A type as it is written in a declaration. -/
inductive GenericType
  /-- A type without arguments. -/
  | named (id : TypeId)
  /-- A type applied to arguments. -/
  | applied (raw : TypeId) (args : List GenericType)
  /-- An array of a component type. -/
  | array (component : GenericType)
  /-- A type variable. -/
  | typeVar (name : String)
  /-- An unknown type between bounds. -/
  | wildcard (upper lower : List GenericType)
  deriving Repr, Inhabited

/-- A declared type variable. -/
structure TypeParam where
  name : String
  bounds : List GenericType := []
  deriving Repr

namespace GenericType

/-- The type without its arguments, for the forms that name one. -/
def raw? : GenericType → Option TypeId
  | named id => some id
  | applied raw _ => some raw
  | _ => none

/-- The type arguments; empty for every form but `applied`. -/
def args : GenericType → List GenericType
  | applied _ args => args
  | _ => []

end GenericType

/-! ## Bindings -/

/-- What type variables stand for. An entry hides the later entries of the same name. -/
abbrev Bindings := List (String × GenericType)

namespace GenericType

mutual

/-- Replaces every variable by its binding; a variable without one becomes the root type. -/
def instantiate (env : Bindings) : GenericType → GenericType
  | named id => named id
  | applied raw args => applied raw (instantiateAll env args)
  | array component => array (instantiate env component)
  | typeVar name => (env.lookup name).getD (named .object)
  | wildcard upper lower => wildcard (instantiateAll env upper) (instantiateAll env lower)

/-- `instantiate` on each type of a list. -/
def instantiateAll (env : Bindings) : List GenericType → List GenericType
  | [] => []
  | t :: ts => instantiate env t :: instantiateAll env ts

end

theorem instantiateAll_eq_map (env : Bindings) (ts : List GenericType) :
    instantiateAll env ts = ts.map (instantiate env) := by
  induction ts with
  | nil => rfl
  | cons t ts ih => rw [instantiateAll, ih, List.map_cons]

end GenericType

/-- What a type variable stands for where nothing binds it: its first bound, read with `env`, or the
root type. -/
def TypeParam.fallback (env : Bindings) (p : TypeParam) : GenericType :=
  match p.bounds with
  | [] => .named .object
  | bound :: _ => bound.instantiate env

/-- The bindings of variables that nothing binds. Their bounds are read without bindings, and the
last of two variables of one name counts. -/
def Bindings.fallbacks (params : List TypeParam) : Bindings :=
  (params.map fun p => (p.name, p.fallback [])).reverse

/-- Binds each variable to the argument at its place; the last of two variables of one name
counts. -/
def Bindings.ofArgs (params : List TypeParam) (args : List GenericType) : Bindings :=
  ((params.map (·.name)).zip args).reverse

/-- Adds the fallbacks of `params` one after the other, each read with the bindings before it. -/
def Bindings.extend (env : Bindings) (params : List TypeParam) : Bindings :=
  params.foldl (fun env p => (p.name, p.fallback env) :: env) env

end PropertyTables
