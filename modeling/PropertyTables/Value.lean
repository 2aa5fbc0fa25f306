import PropertyTables.TypeId

/-! # Values

* `Value`: what slots hold and accessors pass.
* `Value.same`: equality of values as a program sees it: objects by identity, numbers by their own
  equality, arrays element by element.
* `Primitive.initial`: the value of an unset slot of a primitive type.
-/

namespace PropertyTables
set_option autoImplicit false

/-- The identity of an object. -/
structure ObjectId where
  index : Nat
  deriving DecidableEq, Repr, Inhabited

/-- A value. Objects are known by identity alone. -/
inductive Value
  | null
  | boolean (b : Bool)
  | character (c : Char)
  | integer (n : Int64)
  | float (x : Float)
  | text (s : String)
  | object (id : ObjectId)
  | array (elements : List Value)
  deriving Inhabited

namespace Value

/-! ## Equality -/

mutual

/-- Equality of values. Values of two kinds differ, and a NaN differs from itself. -/
def same : Value → Value → Bool
  | null, null => true
  | boolean a, boolean b => a == b
  | character a, character b => a == b
  | integer a, integer b => a == b
  | float a, float b => a == b
  | text a, text b => a == b
  | object a, object b => a == b
  | array a, array b => sameAll a b
  | _, _ => false

/-- `same` on each pair of elements of two lists of one length. -/
def sameAll : List Value → List Value → Bool
  | [], [] => true
  | a :: as, b :: bs => same a b && sameAll as bs
  | _, _ => false

end

/-! ## Views -/

def isNull : Value → Bool
  | null => true
  | _ => false

def boolean? : Value → Option Bool
  | boolean b => some b
  | _ => none

def integer? : Value → Option Int64
  | integer n => some n
  | _ => none

def float? : Value → Option Float
  | float x => some x
  | _ => none

def text? : Value → Option String
  | text s => some s
  | _ => none

def object? : Value → Option ObjectId
  | object id => some id
  | _ => none

end Value

/-- The value of an unset slot of a primitive type. -/
def Primitive.initial : Primitive → Value
  | .void => .null
  | .boolean => .boolean false
  | .char => .character (Char.ofNat 0)
  | .byte | .short | .int | .long => .integer 0
  | .float | .double => .float 0

end PropertyTables
