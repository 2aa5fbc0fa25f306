import PropertyTables.Member

/-! # Declarations

* `Flavor`: what kind of type a declaration declares.
* `Declaration`: a type with its supertypes and members.
* `Declaration.clauses`, `Declaration.superclass?`, `Declaration.superinterfaces`: the supertypes,
  as written and as identities.
-/

namespace PropertyTables
set_option autoImplicit false

/-- The kind of a type. -/
inductive Flavor
  | classType
  | interfaceType
  | primitive (p : Primitive)
  | array (component : TypeId)
  deriving DecidableEq, Repr

def Flavor.isPrimitive : Flavor → Bool
  | primitive _ => true
  | _ => false

/-- A declared type. An array type is declared after its component type. -/
structure Declaration where
  id : TypeId
  space : String
  name : String
  flavor : Flavor
  isAbstract : Bool := false
  isFinal : Bool := false
  typeParams : List TypeParam := []
  superclass : Option GenericType := none
  interfaces : List GenericType := []
  members : Members id := {}
  component_lt : ∀ c : TypeId, flavor = .array c → c.index < id.index := by simp

namespace Declaration

def methods (d : Declaration) : List Method := d.members.methods

def fields (d : Declaration) : List Field := d.members.fields

def constructors (d : Declaration) : List Constructor := d.members.constructors

/-- The name together with its name space, if there is one: `space.name`. -/
def fullName (d : Declaration) : String :=
  if d.space = "" then d.name else d.space ++ "." ++ d.name

/-- The supertypes as written: the superclass, then the interfaces. -/
def clauses (d : Declaration) : List GenericType := d.superclass.toList ++ d.interfaces

/-- The superclass without its arguments. -/
def superclass? (d : Declaration) : Option TypeId := d.superclass.bind (·.raw?)

/-- The interfaces without their arguments; a form that names no type counts for none. -/
def superinterfaces (d : Declaration) : List TypeId := d.interfaces.filterMap (·.raw?)

/-- The first constructor without parameters. -/
def defaultConstructor? (d : Declaration) : Option Constructor :=
  d.constructors.find? (·.params.isEmpty)

end Declaration

end PropertyTables
