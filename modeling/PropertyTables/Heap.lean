import PropertyTables.Hierarchy.Walk

/-! # Objects and their slots

* `Instance`: an object's type and its slots. A slot belongs to a declaring type and a field name,
  so fields of one name in two classes have two slots.
* `Heap`: the objects, and what static fields hold.
* `Registry.allocate`: a new object with a slot for every instance field of its class chain.
* `Heap.readField`, `Heap.writeField`: fields, static or not.
-/

namespace PropertyTables
set_option autoImplicit false

/-! ## Slots -/

/-- The declaring type and the name of the field that a slot holds. -/
abbrev SlotKey := TypeId × String

/-- An object. No two of its slots have one key. -/
structure Instance where
  type : TypeId
  slots : List (SlotKey × Value)

namespace Instance

/-- Gives a slot a value, and adds the slot if there was none. -/
def putSlot (key : SlotKey) (value : Value) : List (SlotKey × Value) → List (SlotKey × Value)
  | [] => [(key, value)]
  | s :: rest => if s.1 = key then (key, value) :: rest else s :: putSlot key value rest

def get? (o : Instance) (key : SlotKey) : Option Value := o.slots.lookup key

/-- The fault that an object lacks a slot. -/
def noSlot (o : Instance) (key : SlotKey) : Fault := .invocation (.noSlot o.type key.2 key.1)

/-- The value of a slot. -/
def get (o : Instance) (key : SlotKey) : Except Fault Value :=
  match o.get? key with
  | some v => .ok v
  | none => .error (o.noSlot key)

/-- Writes a slot that the object has. -/
def set (o : Instance) (key : SlotKey) (value : Value) : Except Fault Instance :=
  match o.get? key with
  | some _ => .ok { o with slots := putSlot key value o.slots }
  | none => .error (o.noSlot key)

end Instance

/-! ## Allocation -/

namespace Registry

/-- The instance fields of the given types with their initial values. The last of two fields of one
name in one type counts. A fault if a type has no declaration. -/
def initialSlots (r : Registry) (slots : List (SlotKey × Value)) :
    List TypeId → Except Fault (List (SlotKey × Value))
  | [] => .ok slots
  | id :: rest => do
    let d ← r.find id
    let own := d.fields.filter fun f => !f.modifiers.isStatic
    let slots := own.foldl (fun slots f => Instance.putSlot (id, f.name) f.initial slots) slots
    r.initialSlots slots rest

/-- A new object of a class that is not abstract. -/
def allocate (r : Registry) (id : TypeId) : Except Fault Instance := do
  let d ← r.find id
  if d.flavor ≠ .classType then throw (.instantiation (.notAClass d.fullName))
  if d.isAbstract then throw (.instantiation (.abstractClass d.fullName))
  return ⟨id, ← r.initialSlots [] (r.superclassChain id)⟩

end Registry

/-! ## The heap -/

/-- A static field: its declaring type and its position there. -/
abbrev StaticKey := TypeId × Nat

/-- The objects by identity, and the static fields that were written. -/
structure Heap where
  objects : List Instance
  statics : List (StaticKey × Value)

namespace Heap

def empty : Heap := ⟨[], []⟩

/-- The object of an identity. An identity that was never handed out is a bare object of the root
type. -/
def object (h : Heap) (id : ObjectId) : Instance := h.objects[id.index]?.getD ⟨.object, []⟩

/-- Gives an object the next identity. -/
def add (h : Heap) (o : Instance) : ObjectId × Heap :=
  (⟨h.objects.length⟩, { h with objects := h.objects ++ [o] })

/-- Writes a slot that the object has. -/
def setSlot (h : Heap) (id : ObjectId) (key : SlotKey) (value : Value) : Except Fault Heap := do
  let o ← (h.object id).set key value
  return { h with objects := h.objects.set id.index o }

/-- What a field holds for an object. A static field holds one value for all objects. -/
def readField (h : Heap) (id : ObjectId) (f : Field) : Except Fault Value :=
  if f.modifiers.isStatic then .ok ((h.statics.lookup (f.declaring, f.position)).getD f.initial)
  else (h.object id).get (f.declaring, f.name)

/-- Writes a field of an object, or of all objects if it is static. -/
def writeField (h : Heap) (id : ObjectId) (f : Field) (value : Value) : Except Fault Heap :=
  if f.modifiers.isStatic then
    .ok { h with statics := ((f.declaring, f.position), value) :: h.statics }
  else h.setSlot id (f.declaring, f.name) value

end Heap

end PropertyTables
