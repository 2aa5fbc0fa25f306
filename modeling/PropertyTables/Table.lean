import PropertyTables.Invocation

/-! # Property tables

* `Entry`: how one side of a property is accessed, and its type before and after erasure.
* `Table`: the readable and the writable properties of a type.
* `Table.entry`: the entry of a property, or the fault that there is none.
* `Table.findName?`: the property that a name stands for when case is ignored.
-/

namespace PropertyTables
set_option autoImplicit false

/-- One side of a property. -/
structure Entry where
  invoker : Invoker
  type : TypeId
  generic : GenericType

def Entry.accessor (e : Entry) : Accessor := e.invoker.accessor

/-- The properties of a type. `name` is the type's full name. -/
structure Table where
  type : TypeId
  name : String
  readers : Index Entry
  writers : Index Entry
  defaultConstructor? : Option Constructor

namespace Table

/-- The entries of one side. -/
def entries (t : Table) : Side → Index Entry
  | .read => t.readers
  | .write => t.writers

/-- The readable (writable) property names, in increasing order. -/
def names (t : Table) (side : Side) : List String := (t.entries side).names

def has (t : Table) (side : Side) (name : String) : Bool := (t.entries side).contains name

/-- The entry of a property; a fault if the side has none. -/
def entry (t : Table) (side : Side) (name : String) : Except Fault Entry :=
  match (t.entries side).find? name with
  | some e => .ok e
  | none => .error (.propertyNotFound side name t.name)

/-- The property with the same upper case. Of several the last writable one counts, or the last
readable one if none is writable. -/
def findName? (t : Table) (name : String) : Option String :=
  (t.names .read ++ t.names .write).findRev? fun n => Text.upper n == Text.upper name

/-- The constructor without parameters; a fault if there is none. -/
def defaultConstructor (t : Table) : Except Fault Constructor :=
  match t.defaultConstructor? with
  | some c => .ok c
  | none => .error (.noDefaultConstructor t.name)

/-- A new object from the constructor without parameters. -/
def newInstance (t : Table) : Running ObjectId := do
  let c ← Running.peek fun _ => t.defaultConstructor
  c.construct t.type

end Table

end PropertyTables
