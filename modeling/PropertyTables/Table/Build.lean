import PropertyTables.Table
import PropertyTables.Table.Discovery
import PropertyTables.Table.Overloads

/-! # Building a property table

* `nameAccessors`: the accessor methods and the properties that they stand for.
* `getterEntries`, `setterEntries`: the properties that accessor methods make.
* `addFields`: the properties that fields make where methods made none.
* `Table.build`: the table of a type.
-/

namespace PropertyTables
set_option autoImplicit false

/-! ## Candidates -/

/-- Whether a method reads (writes) a property: by its name, and by having no parameter (one). -/
def Method.isAccessor (m : Method) : Side → Bool
  | .read => m.params.length == 0 && isGetterName m.name
  | .write => m.params.length == 1 && isSetterName m.name

/-- The accessor methods of one side with the properties that their names stand for. A fault if a
name stands for none. -/
def nameAccessors (side : Side) (methods : List Method) : Except Fault (List (String × Method)) :=
  (methods.filter (·.isAccessor side)).mapM fun m => do
    return (← PropertyName.ofAccessor m.name, m)

/-- The accessor methods of one property, in order. -/
def candidates (property : String) (pairs : List (String × Method)) : List Method :=
  (pairs.filter (·.1 == property)).map (·.2)

/-- The properties of some accessor methods, each once, in increasing order. -/
def propertiesOf (pairs : List (String × Method)) : List String := (Index.ofList pairs).names

/-! ## Getters -/

/-- A getter with the type that it declares to return. -/
def getterOverload (m : Method) : Growing Overload := do
  return ⟨m, ← m.eraseDeclared m.returns⟩

/-- The getter that counts for a property. A single one counts whatever its type. -/
def resolveGetter (property : String) : List Method → Growing (Option Method)
  | [] => return none
  | [single] => return some single
  | first :: others => do
    let a ← getterOverload first
    let rest ← others.mapM getterOverload
    return some (← Growing.read (·.chooseGetter property a rest))

/-- The entry that a getter makes in the table of `owner`. -/
def getterEntry (owner : TypeId) (m : Method) : Growing Entry := do
  let generic ← Growing.read (·.resolveReturn m owner)
  let type ← generic.erase
  return ⟨⟨.method m, type⟩, type, generic⟩

/-- Adds the entries of the given properties, in order. Excluded names are resolved and then left
out. -/
def getterEntries (owner : TypeId) (pairs : List (String × Method)) (made : Index Entry) :
    List String → Growing (Index Entry)
  | [] => return made
  | property :: rest => do
    match ← resolveGetter property (candidates property pairs) with
    | some winner =>
      if PropertyName.isExcluded property then getterEntries owner pairs made rest
      else
        let entry ← getterEntry owner winner
        getterEntries owner pairs (made.insert property entry) rest
    | none => getterEntries owner pairs made rest

/-! ## Setters -/

/-- A setter with the type that it declares to take. -/
def setterOverload (m : Method) : Growing Overload := do
  return ⟨m, ← m.eraseDeclared (m.params.headD (.named .object))⟩

/-- The setter that counts for a property. A single one counts whatever its type. -/
def resolveSetter (property : String) (readType : Option TypeId) :
    List Method → Growing (Option Method)
  | [] => return none
  | [single] => return some single
  | first :: second :: others => do
    let a ← setterOverload first
    let b ← setterOverload second
    let rest ← others.mapM setterOverload
    return some (← Growing.read (·.chooseSetter property readType a b rest))

/-- The entry that a setter makes in the table of `owner`. -/
def setterEntry (owner : TypeId) (m : Method) : Growing Entry := do
  let generic := (← Growing.read (·.resolveParams m owner)).headD (.named .object)
  let type ← generic.erase
  return ⟨⟨.method m, type⟩, type, generic⟩

/-- Adds the entries of the given properties, in order; `readers` are the entries that getter
methods made. Excluded names are resolved and then left out. -/
def setterEntries (owner : TypeId) (pairs : List (String × Method)) (readers made : Index Entry) :
    List String → Growing (Index Entry)
  | [] => return made
  | property :: rest => do
    let readType := (readers.find? property).map (·.type)
    match ← resolveSetter property readType (candidates property pairs) with
    | some winner =>
      if PropertyName.isExcluded property then setterEntries owner pairs readers made rest
      else
        let entry ← setterEntry owner winner
        setterEntries owner pairs readers (made.insert property entry) rest
    | none => setterEntries owner pairs readers made rest

/-! ## Fields -/

/-- The entries of both sides. -/
structure Sides where
  readers : Index Entry
  writers : Index Entry

/-- Lets a field make the entries that are missing. A constant is never written. -/
def addField (owner : TypeId) (made : Sides) (f : Field) : Growing Sides :=
  let writes := !made.writers.contains f.name && !f.modifiers.isConstant
  let reads := !made.readers.contains f.name
  if PropertyName.isExcluded f.name || !(writes || reads) then return made
  else do
    let generic ← Growing.read (·.resolveField f owner)
    let type ← generic.erase
    return {
      readers := if reads then made.readers.insert f.name ⟨⟨.readField f, type⟩, type, generic⟩
        else made.readers
      writers := if writes then made.writers.insert f.name ⟨⟨.writeField f, type⟩, type, generic⟩
        else made.writers }

/-- Lets the fields of a class and its superclasses make the entries that are missing, most derived
class first. A fault if there are more than `room` classes, the root type included; the fault names
`limit`. -/
def addFields (owner : TypeId) (limit : Nat) : Nat → Option TypeId → Sides → Growing Sides
  | _, none, made => return made
  | 0, some _, _ => throw (.recursionLimit limit)
  | room + 1, some id, made => do
    let d ← Growing.read (·.find id)
    let made ← d.fields.foldlM (addField owner) made
    addFields owner limit room d.superclass? made

/-! ## The table -/

/-- The table of a type, with at most `limit` classes in its superclass chain. -/
def Table.build (type : TypeId) (limit : Nat) : Growing Table := do
  let name ← Growing.read (·.fullName type)
  let methods ← collectMethods type limit
  let getters ← Growing.read fun _ => nameAccessors .read methods
  let readers ← getterEntries type getters {} (propertiesOf getters)
  let setters ← Growing.read fun _ => nameAccessors .write methods
  let writers ← setterEntries type setters readers {} (propertiesOf setters)
  let sides ← addFields type limit limit (some type) ⟨readers, writers⟩
  let d ← Growing.read (·.find type)
  return {
    type := type
    name := name
    readers := sides.readers
    writers := sides.writers
    defaultConstructor? := d.defaultConstructor? }

/-- The limit on superclass chains where none is given. -/
def Table.defaultLimit : Nat := 64

end PropertyTables
