import PropertyTables.TypeId

/-! # Faults

* `Fault`: everything that can go wrong, as causes.
* `Fault.message`: the wording of each cause.
-/

namespace PropertyTables
set_option autoImplicit false

/-- Reading or writing. -/
inductive Side
  | read
  | write
  deriving DecidableEq, Repr

/-- Why running a member failed. -/
inductive InvocationFault
  /-- A method was given another number of arguments than it has parameters. -/
  | argumentCount (method : String) (expected given : Nat)
  /-- Writing a field was given another number of values than one. -/
  | valueCount (field : String) (given : Nat)
  /-- No type of the target's hierarchy has a body for the method, nor has the method itself. -/
  | noImplementation (method : String) (target : TypeId)
  /-- The target has no such slot. -/
  | noSlot (target : TypeId) (name : String) (declaring : TypeId)
  /-- A body failed. -/
  | raised (message : String)
  deriving DecidableEq, Repr

/-- Why no object could be made. -/
inductive InstantiationFault
  | notAClass (type : String)
  | abstractClass (type : String)
  /-- A constructor body failed. -/
  | raised (message : String)
  deriving DecidableEq, Repr

/-- What went wrong. -/
inductive Fault
  /-- The zero-parameter getters of a property have no most specific return type. -/
  | ambiguousGetter (property owner : String)
  /-- No setter of a property is to be preferred; `first` and `second` are types of two. -/
  | ambiguousSetter (property owner first second : String)
  /-- A table has no such property on one side. -/
  | propertyNotFound (side : Side) (property owner : String)
  | noDefaultConstructor (owner : String)
  /-- A method name that is no accessor name. -/
  | invalidPropertyName (name : String)
  /-- An identity without a declaration. -/
  | typeNotFound (id : TypeId)
  /-- A second declaration for one identity. -/
  | alreadyPublished (type : String)
  | invocation (cause : InvocationFault)
  | instantiation (cause : InstantiationFault)
  /-- A superclass chain longer than the limit. -/
  | recursionLimit (limit : Nat)
  | unknownSetting (key : String)
  deriving DecidableEq, Repr

def Side.accessorName : Side → String
  | read => "getter"
  | write => "setter"

def InvocationFault.message : InvocationFault → String
  | argumentCount method expected given =>
    "Method " ++ method ++ " expects " ++ toString expected ++ " argument(s), got "
      ++ toString given
  | valueCount field given =>
    "Field " ++ field ++ " expects exactly one value, got " ++ toString given
  | noImplementation method target =>
    "No implementation of " ++ method ++ " for object of type " ++ target.text
  | noSlot target name declaring =>
    "Object of type " ++ target.text ++ " has no field '" ++ name ++ "' declared by "
      ++ declaring.text
  | raised message => message

def InstantiationFault.message : InstantiationFault → String
  | notAClass type => "Cannot instantiate non-class type " ++ type
  | abstractClass type => "Cannot instantiate abstract class " ++ type
  | raised message => message

/-- The wording of a fault. -/
def Fault.message : Fault → String
  | ambiguousGetter property owner =>
    "Illegal overloaded getter method with ambiguous type for property '" ++ property
      ++ "' in class '" ++ owner
      ++ "'. This breaks the JavaBeans specification and can cause unpredictable results."
  | ambiguousSetter property owner first second =>
    "Ambiguous setters defined for property '" ++ property ++ "' in class '" ++ owner
      ++ "' with types '" ++ first ++ "' and '" ++ second ++ "'."
  | propertyNotFound side property owner =>
    "There is no " ++ side.accessorName ++ " for property named '" ++ property ++ "' in '" ++ owner
      ++ "'"
  | noDefaultConstructor owner => "There is no default constructor for " ++ owner
  | invalidPropertyName name =>
    "Error parsing property name '" ++ name ++ "'. Didn't start with 'is', 'get' or 'set'."
  | typeNotFound id => "Failed to find type in TypeSystem - " ++ id.text
  | alreadyPublished type => "Type " ++ type ++ " was already published"
  | invocation cause => cause.message
  | instantiation cause => cause.message
  | recursionLimit limit => "Reach the maximum recursion level allowed - " ++ toString limit
  | unknownSetting key =>
    "The setting " ++ key ++ " is not known. Make sure you spelled it correctly (case sensitive)."

end PropertyTables
