/-! # Type identities

* `TypeId`: the number of a type in its registry; `TypeId.text` is how messages show it.
* `Primitive`: the value types that every registry starts with, void among them.
* The built-in types have fixed identities: `TypeId.object`, `TypeId.string`, `Primitive.typeId`.
-/

namespace PropertyTables
set_option autoImplicit false

/-- The identity of a type: its place in the registry, counted without a bound. Where identities are
32-bit numbers the last of them is handed out again and again once all are taken; this describes
registries that do not get that far. -/
structure TypeId where
  index : Nat
  deriving DecidableEq, Repr, Inhabited

/-- How messages show a type that they do not name: `#12`. -/
def TypeId.text (id : TypeId) : String := "#" ++ toString id.index

/-- The built-in value types, in the order of their identities. -/
inductive Primitive
  | void
  | boolean
  | char
  | byte
  | short
  | int
  | long
  | float
  | double
  deriving DecidableEq, Repr

namespace Primitive

/-- All primitives, in the order of their identities. -/
def all : List Primitive := [void, boolean, char, byte, short, int, long, float, double]

def name : Primitive → String
  | void => "void"
  | boolean => "boolean"
  | char => "char"
  | byte => "byte"
  | short => "short"
  | int => "int"
  | long => "long"
  | float => "float"
  | double => "double"

end Primitive

/-! ## Built-in identities -/

/-- The root of the class hierarchy. -/
def TypeId.object : TypeId := ⟨0⟩

/-- The type of texts. -/
def TypeId.string : TypeId := ⟨1⟩

/-- The identity of a primitive; the primitives follow the root type and the text type. -/
def Primitive.typeId : Primitive → TypeId
  | void => ⟨2⟩
  | boolean => ⟨3⟩
  | char => ⟨4⟩
  | byte => ⟨5⟩
  | short => ⟨6⟩
  | int => ⟨7⟩
  | long => ⟨8⟩
  | float => ⟨9⟩
  | double => ⟨10⟩

/-- The primitive that an identity belongs to. -/
def Primitive.ofTypeId? (id : TypeId) : Option Primitive :=
  all.find? fun p => p.typeId = id

end PropertyTables
