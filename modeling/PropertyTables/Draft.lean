import PropertyTables.Declaration
import PropertyTables.PropertyName

/-! # Drafts

* `MethodDraft`: a method being written; `MethodDraft.finish` makes it a member.
* `Draft`: a class or an interface being written under an identity that is already reserved.
* `Draft.property`: a private field together with its two accessors.
* `Draft.declaration`: the finished declaration.
-/

namespace PropertyTables
set_option autoImplicit false

/-! ## Methods -/

/-- A method being written; it starts public and without parameters. -/
structure MethodDraft where
  name : String
  returns : Option GenericType := none
  params : List GenericType := []
  typeParams : List TypeParam := []
  modifiers : Modifiers := { isPublic := true }
  body : Option MethodBody := none

namespace MethodDraft

def withModifiers (m : MethodDraft) (extra : Modifiers) : MethodDraft :=
  { m with modifiers := m.modifiers.union extra }

/-- Private, and no longer public or protected. -/
def asPrivate (m : MethodDraft) : MethodDraft :=
  { m with modifiers :=
    { m.modifiers with isPublic := false, isProtected := false, isPrivate := true } }

/-- A bridge, and so synthetic. -/
def asBridge (m : MethodDraft) : MethodDraft :=
  m.withModifiers { isBridge := true, isSynthetic := true }

/-- The finished method. Without a body it is abstract, and without a return type it returns
void. -/
def finish (m : MethodDraft) (declaring : TypeId) : Method where
  name := m.name
  declaring := declaring
  returns := m.returns.getD (.named Primitive.void.typeId)
  params := m.params
  typeParams := m.typeParams
  modifiers := if m.body.isNone then { m.modifiers with isAbstract := true } else m.modifiers
  body := m.body

end MethodDraft

/-! ## Adding members -/

namespace Members

variable {owner : TypeId}

/-- Adds a method after the others. -/
def addMethod (ms : Members owner) (m : MethodDraft) : Members owner :=
  { ms with
    methods := ms.methods ++ [m.finish owner]
    methods_declaring := by
      intro m h
      rcases List.mem_append.mp h with h | h
      · exact ms.methods_declaring m h
      · rw [List.mem_singleton.mp h]
        rfl }

/-- Adds a field at the next place. -/
def addField (ms : Members owner) (name : String) (type : GenericType) (modifiers : Modifiers)
    (initial : Value) : Members owner :=
  { ms with
    fields := ms.fields ++ [{
      name := name
      declaring := owner
      position := ms.fields.length
      type := type
      modifiers := modifiers
      initial := initial }]
    fields_declaring := by
      intro i f h
      rcases Nat.lt_or_ge i ms.fields.length with bound | bound
      · rw [List.getElem?_append_left bound] at h
        exact ms.fields_declaring i f h
      · rw [List.getElem?_append_right bound] at h
        obtain ⟨last, rfl⟩ := List.getElem?_eq_some_iff.mp h
        have : i - ms.fields.length = 0 := by simpa using last
        simp
        omega }

/-- Adds a public constructor after the others. -/
def addConstructor (ms : Members owner) (params : List GenericType)
    (body : Option ConstructorBody) : Members owner :=
  { ms with
    constructors := ms.constructors ++ [{
      declaring := owner
      params := params
      modifiers := { isPublic := true }
      body := body }]
    constructors_declaring := by
      intro c h
      rcases List.mem_append.mp h with h | h
      · exact ms.constructors_declaring c h
      · rw [List.mem_singleton.mp h] }

end Members

/-! ## Types -/

/-- The kinds of type that can be written. -/
inductive DraftKind
  | classType
  | interfaceType
  deriving DecidableEq, Repr

def DraftKind.flavor : DraftKind → Flavor
  | classType => .classType
  | interfaceType => .interfaceType

/-- A type being written. -/
structure Draft where
  id : TypeId
  space : String
  name : String
  kind : DraftKind
  isAbstract : Bool := false
  isFinal : Bool := false
  typeParams : List TypeParam := []
  superclass : Option GenericType := none
  interfaces : List GenericType := []
  members : Members id := {}

namespace Draft

/-! ### Supertypes and parameters -/

/-- Names the superclass; a second call replaces the first. -/
def extending (d : Draft) (parent : GenericType) : Draft := { d with superclass := some parent }

def implementing (d : Draft) (parent : GenericType) : Draft :=
  { d with interfaces := d.interfaces ++ [parent] }

def withTypeParam (d : Draft) (p : TypeParam) : Draft :=
  { d with typeParams := d.typeParams ++ [p] }

def asAbstract (d : Draft) : Draft := { d with isAbstract := true }

def asFinal (d : Draft) : Draft := { d with isFinal := true }

/-! ### Members -/

def method (d : Draft) (m : MethodDraft) : Draft :=
  { d with members := d.members.addMethod m }

/-- A method without parameters and body. -/
def getter (d : Draft) (name : String) (type : GenericType) : Draft :=
  d.method { name := name, returns := some type }

/-- A method with one parameter and without body. -/
def setter (d : Draft) (name : String) (type : GenericType) : Draft :=
  d.method { name := name, params := [type] }

/-- A field that starts with the initial value of its type. -/
def field (d : Draft) (name : String) (type : GenericType) (modifiers : Modifiers) : Draft :=
  { d with members := d.members.addField name type modifiers type.initial }

/-- A field that only its own type uses. -/
def privateField (d : Draft) (name : String) (type : GenericType) : Draft :=
  d.field name type { isPrivate := true }

/-- A public static final field that starts with the given value. -/
def constant (d : Draft) (name : String) (type : GenericType) (value : Value) : Draft :=
  let modifiers : Modifiers := { isPublic := true, isStatic := true, isFinal := true }
  { d with members := d.members.addField name type modifiers value }

/-- A private field, a method that reads it and a method that writes it. -/
def property (d : Draft) (name : String) (type : GenericType) : Draft :=
  let suffix := PropertyName.accessorSuffix name
  ((d.privateField name type).method {
      name := "get" ++ suffix
      returns := some type
      body := some (.readSlot d.id name) }).method {
      name := "set" ++ suffix
      params := [type]
      body := some (.writeSlot d.id name) }

/-- A public constructor. -/
def addConstructor (d : Draft) (params : List GenericType) (body : Option ConstructorBody) :
    Draft :=
  { d with members := d.members.addConstructor params body }

/-- A public constructor without parameters that does nothing. -/
def defaultConstructor (d : Draft) : Draft := d.addConstructor [] none

/-! ### The finished type -/

/-- The finished declaration. A class that names no superclass extends the root type. -/
def declaration (d : Draft) : Declaration where
  id := d.id
  space := d.space
  name := d.name
  flavor := d.kind.flavor
  isAbstract := d.isAbstract
  isFinal := d.isFinal
  typeParams := d.typeParams
  superclass := match d.superclass, d.kind with
    | some parent, _ => some parent
    | none, .classType => some (.named .object)
    | none, .interfaceType => none
  interfaces := d.interfaces
  members := d.members
  component_lt := by
    intro c array
    cases kind : d.kind <;> simp [kind, DraftKind.flavor] at array

end Draft

end PropertyTables
