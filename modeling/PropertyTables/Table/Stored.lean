import Mathlib.Data.List.Sort
import PropertyTables.Table.Build

/-! # Property tables as they are stored

A table keeps what it knows of its properties apart: their accessors, their types and their types
before erasure, for either side. Each of the three has a map of its own, and the maps are filled one
by one.

* `TableMaps`: these six maps. `addGetters`, `addSetters` and `addFields` are the passes that fill
  them.
* `StoredTable`: the maps when all passes are over, the sorted names of either side, and the index
  that names are found by when case is ignored.
* `StoredTable.build`: the stored table of a type.
-/

namespace PropertyTables
set_option autoImplicit false

/-! ## Maps under property names -/

/-- What is known of the properties that can be read, and of those that can be written. -/
structure TableMaps where
  getInvokers : Std.HashMap String Invoker := ∅
  setInvokers : Std.HashMap String Invoker := ∅
  getTypes : Std.HashMap String TypeId := ∅
  setTypes : Std.HashMap String TypeId := ∅
  getGenerics : Std.HashMap String GenericType := ∅
  setGenerics : Std.HashMap String GenericType := ∅

namespace TableMaps

def invokers (m : TableMaps) : Side → Std.HashMap String Invoker
  | .read => m.getInvokers
  | .write => m.setInvokers

def types (m : TableMaps) : Side → Std.HashMap String TypeId
  | .read => m.getTypes
  | .write => m.setTypes

def generics (m : TableMaps) : Side → Std.HashMap String GenericType
  | .read => m.getGenerics
  | .write => m.setGenerics

/-! ## Passes -/

/-- Enters the getters of the given properties, in order. -/
def addGetters (owner : TypeId) (pairs : List (String × Method)) (made : TableMaps) :
    List String → Growing TableMaps
  | [] => return made
  | property :: rest => do
    match ← resolveGetter property (candidates property pairs) with
    | some winner =>
      if PropertyName.isExcluded property then addGetters owner pairs made rest
      else
        let generic ← Growing.read (·.resolveReturn winner owner)
        let type ← generic.erase
        let made := { made with
          getInvokers := made.getInvokers.insert property ⟨.method winner, type⟩
          getTypes := made.getTypes.insert property type
          getGenerics := made.getGenerics.insert property generic }
        addGetters owner pairs made rest
    | none => addGetters owner pairs made rest

/-- Enters the setters of the given properties, in order. -/
def addSetters (owner : TypeId) (pairs : List (String × Method)) (made : TableMaps) :
    List String → Growing TableMaps
  | [] => return made
  | property :: rest => do
    match ← resolveSetter property made.getTypes[property]? (candidates property pairs) with
    | some winner =>
      if PropertyName.isExcluded property then addSetters owner pairs made rest
      else
        let generic := (← Growing.read (·.resolveParams winner owner)).headD (.named .object)
        let type ← generic.erase
        let made := { made with
          setInvokers := made.setInvokers.insert property ⟨.method winner, type⟩
          setTypes := made.setTypes.insert property type
          setGenerics := made.setGenerics.insert property generic }
        addSetters owner pairs made rest
    | none => addSetters owner pairs made rest

/-- Enters a field on the sides where its name has no accessor yet; a constant is never written. -/
def addField (owner : TypeId) (made : TableMaps) (f : Field) : Growing TableMaps :=
  let claimsWrite := !made.setInvokers.contains f.name && !f.modifiers.isConstant
  let claimsRead := !made.getInvokers.contains f.name
  if PropertyName.isExcluded f.name || !(claimsWrite || claimsRead) then return made
  else do
    let generic ← Growing.read (·.resolveField f owner)
    let type ← generic.erase
    let made := if claimsWrite then { made with
        setInvokers := made.setInvokers.insert f.name ⟨.writeField f, type⟩
        setTypes := made.setTypes.insert f.name type
        setGenerics := made.setGenerics.insert f.name generic } else made
    return if claimsRead then { made with
        getInvokers := made.getInvokers.insert f.name ⟨.readField f, type⟩
        getTypes := made.getTypes.insert f.name type
        getGenerics := made.getGenerics.insert f.name generic } else made

/-- Enters the fields of a class and its superclasses, most derived class first. -/
def addFields (owner : TypeId) (limit : Nat) :
    Nat → Option TypeId → TableMaps → Growing TableMaps
  | _, none, made => return made
  | 0, some _, _ => throw (.recursionLimit limit)
  | room + 1, some id, made => do
    let d ← Growing.read (·.find id)
    let made ← d.fields.foldlM (addField owner) made
    addFields owner limit room d.superclass? made

end TableMaps

/-! ## The stored table -/

/-- The keys of a map, which come in any order, sorted by code point. -/
def sortedKeys {α : Type} (map : Std.HashMap String α) : List String :=
  map.keys.mergeSort (· ≤ ·)

/-- Each name under its upper case, put in one after the other. -/
def caselessIndex (names : List String) : Std.HashMap String String :=
  names.foldl (fun index name => index.insert (Text.upper name) name) ∅

/-- The properties of a type as they are stored. `name` is the type's full name. -/
structure StoredTable extends TableMaps where
  type : TypeId
  name : String
  readable : List String
  writable : List String
  caseless : Std.HashMap String String
  defaultConstructor? : Option Constructor

namespace StoredTable

/-- The stored table of a type, with at most `limit` classes in its superclass chain. -/
def build (type : TypeId) (limit : Nat) : Growing StoredTable := do
  let name ← Growing.read (·.fullName type)
  let methods ← collectMethods type limit
  let getters ← Growing.read fun _ => nameAccessors .read methods
  let maps ← TableMaps.addGetters type getters {} (propertiesOf getters)
  let setters ← Growing.read fun _ => nameAccessors .write methods
  let maps ← TableMaps.addSetters type setters maps (propertiesOf setters)
  let maps ← TableMaps.addFields type limit limit (some type) maps
  let d ← Growing.read (·.find type)
  let readable := sortedKeys maps.getInvokers
  let writable := sortedKeys maps.setInvokers
  return { maps with
    type := type
    name := name
    readable := readable
    writable := writable
    caseless := caselessIndex (readable ++ writable)
    defaultConstructor? := d.defaultConstructor? }

/-! ## What is asked of a table -/

/-- The readable (writable) property names, in increasing order. -/
def names (t : StoredTable) : Side → List String
  | .read => t.readable
  | .write => t.writable

def has (t : StoredTable) (side : Side) (name : String) : Bool := (t.invokers side).contains name

/-- What one of the maps has under a name; a fault if it has nothing. -/
def lookUp {α : Type} (t : StoredTable) (map : Std.HashMap String α) (side : Side) (name : String) :
    Except Fault α :=
  match map[name]? with
  | some value => .ok value
  | none => .error (.propertyNotFound side name t.name)

/-- The accessor of a property. -/
def invoker (t : StoredTable) (side : Side) (name : String) : Except Fault Invoker :=
  t.lookUp (t.invokers side) side name

/-- The erased type of a property. -/
def typeOf (t : StoredTable) (side : Side) (name : String) : Except Fault TypeId :=
  t.lookUp (t.types side) side name

/-- The type of a property before erasure. -/
def genericOf (t : StoredTable) (side : Side) (name : String) : Except Fault GenericType :=
  t.lookUp (t.generics side) side name

/-- The property that a name stands for when case is ignored. -/
def findName? (t : StoredTable) (name : String) : Option String := t.caseless[Text.upper name]?

end StoredTable

end PropertyTables
