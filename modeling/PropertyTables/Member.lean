import PropertyTables.GenericType
import PropertyTables.Value

/-! # Members of a type

* `Modifiers`: the modifiers of a member, one truth value each.
* `Method`, `Field`, `Constructor`: declared members. Each knows the type that declares it; a field
  also knows its place among the fields of that type, which tells two fields of one name apart.
* `MethodBody`, `ConstructorBody`: what a member does when it runs.
* `Members`: all members of one type.
-/

namespace PropertyTables
set_option autoImplicit false

/-- The modifiers of a member. -/
structure Modifiers where
  isPublic : Bool := false
  isPrivate : Bool := false
  isProtected : Bool := false
  isStatic : Bool := false
  isFinal : Bool := false
  isAbstract : Bool := false
  isSynthetic : Bool := false
  isBridge : Bool := false
  deriving DecidableEq, Repr

/-- The modifiers of either side. -/
def Modifiers.union (a b : Modifiers) : Modifiers where
  isPublic := a.isPublic || b.isPublic
  isPrivate := a.isPrivate || b.isPrivate
  isProtected := a.isProtected || b.isProtected
  isStatic := a.isStatic || b.isStatic
  isFinal := a.isFinal || b.isFinal
  isAbstract := a.isAbstract || b.isAbstract
  isSynthetic := a.isSynthetic || b.isSynthetic
  isBridge := a.isBridge || b.isBridge

/-- Static and final together: a value that is never written. -/
def Modifiers.isConstant (m : Modifiers) : Bool := m.isStatic && m.isFinal

/-! ## Methods -/

/-- What a method does with its target object and its arguments. -/
inductive MethodBody
  /-- Returns a value. -/
  | constant (v : Value)
  /-- Returns the target's slot of that declaring type and name. -/
  | readSlot (declaring : TypeId) (name : String)
  /-- Writes the first argument, or null, to that slot and returns null. -/
  | writeSlot (declaring : TypeId) (name : String)
  /-- Returns the arguments as an array. -/
  | arguments
  /-- Returns the text of the target's type. -/
  | targetType
  /-- Fails with a message. -/
  | raise (message : String)

/-- A declared method. -/
structure Method where
  name : String
  declaring : TypeId
  returns : GenericType
  params : List GenericType
  typeParams : List TypeParam
  modifiers : Modifiers
  body : Option MethodBody

/-! ## Fields -/

/-- A declared field. `initial` is what it holds before anything is written to it. -/
structure Field where
  name : String
  declaring : TypeId
  position : Nat
  type : GenericType
  modifiers : Modifiers
  initial : Value

/-- The value that a field of this type starts with: zero for a primitive, null otherwise. -/
def GenericType.initial : GenericType → Value
  | named id => (Primitive.ofTypeId? id).elim .null Primitive.initial
  | _ => .null

/-! ## Constructors -/

/-- What a constructor does with the new object. -/
inductive ConstructorBody
  /-- Writes each value to the slot of that declaring type and name. -/
  | assign (slots : List ((TypeId × String) × Value))
  /-- Fails with a message. -/
  | raise (message : String)

/-- A declared constructor. -/
structure Constructor where
  declaring : TypeId
  params : List GenericType
  modifiers : Modifiers
  body : Option ConstructorBody

/-! ## All members of a type -/

/-- The members that one type declares, in order. Each knows its owner, and a field its place. -/
structure Members (owner : TypeId) where
  methods : List Method := []
  fields : List Field := []
  constructors : List Constructor := []
  methods_declaring : ∀ m ∈ methods, m.declaring = owner := by simp
  fields_declaring : ∀ (i : Nat) (f : Field), fields[i]? = some f →
    f.declaring = owner ∧ f.position = i := by simp
  constructors_declaring : ∀ c ∈ constructors, c.declaring = owner := by simp

end PropertyTables
