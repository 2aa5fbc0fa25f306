import PropertyTables.Heap
import Mathlib.Data.List.Nodup

/-! # Where fields are stored

* `Place`: a slot of an object, or the one value of a static field. `Field.place` is where a field
  of an object is stored, and `Heap.at?` what is there.
* `Heap.at?_writeField`: writing a field changes what is at its place and nothing else.
* `Heap.Keeps`: a later heap in which the objects have the types and the slots that they had.
-/

namespace PropertyTables
set_option autoImplicit false

/-! ## Slots -/

namespace Instance
variable {key : SlotKey} {value : Value} {slots : List (SlotKey × Value)}

/-- The keys of an object's slots. -/
def keys (o : Instance) : List SlotKey := o.slots.map (·.1)

theorem lookup_putSlot (other : SlotKey) :
    (putSlot key value slots).lookup other =
      if other = key then some value else slots.lookup other := by
  induction slots with
  | nil => rw [putSlot, Index.lookup_cons_eq]
  | cons s rest ih =>
    rw [putSlot]
    split
    · rename_i same
      rw [Index.lookup_cons_eq, Index.lookup_cons_eq, same]
      split <;> rfl
    · rename_i different
      rw [Index.lookup_cons_eq, Index.lookup_cons_eq, ih]
      split
      · rename_i first
        rw [if_neg fun h => different (first.symm.trans h)]
      · rfl

theorem map_putSlot_of_mem (h : key ∈ slots.map (·.1)) :
    (putSlot key value slots).map (·.1) = slots.map (·.1) := by
  induction slots with
  | nil => cases h
  | cons s rest ih =>
    rw [putSlot]
    split
    · rename_i same
      rw [List.map_cons, List.map_cons, same]
    · rename_i different
      have later : key ∈ rest.map (·.1) := (List.mem_cons.mp h).resolve_left (Ne.symm different)
      rw [List.map_cons, List.map_cons, ih later]

theorem map_putSlot_of_not_mem (h : key ∉ slots.map (·.1)) :
    (putSlot key value slots).map (·.1) = slots.map (·.1) ++ [key] := by
  induction slots with
  | nil => rfl
  | cons s rest ih =>
    obtain ⟨different, later⟩ := not_or.mp (mt List.mem_cons.mpr h)
    rw [putSlot, if_neg (Ne.symm different), List.map_cons, ih later]
    rfl

theorem nodup_putSlot (h : (slots.map (·.1)).Nodup) :
    ((putSlot key value slots).map (·.1)).Nodup := by
  by_cases member : key ∈ slots.map (·.1)
  · rwa [map_putSlot_of_mem member]
  · rw [map_putSlot_of_not_mem member]
    exact List.nodup_append_comm.mp (List.nodup_cons.mpr ⟨member, h⟩)

theorem mem_keys_iff {o : Instance} : key ∈ o.keys ↔ ∃ value, o.get? key = some value := by
  rw [← Option.isSome_iff_exists, get?, List.lookup_isSome_iff, keys, List.mem_map]
  simp only [beq_iff_eq, eq_comm (a := key)]

theorem set_eq_ok {o after : Instance} :
    o.set key value = .ok after ↔
      key ∈ o.keys ∧ after = { o with slots := putSlot key value o.slots } := by
  rw [mem_keys_iff, set]
  cases o.get? key <;> simp [eq_comm]

theorem keys_putSlot {o : Instance} (h : key ∈ o.keys) :
    keys { o with slots := putSlot key value o.slots } = o.keys :=
  map_putSlot_of_mem h

end Instance

/-! ## Places -/

/-- Where a field is stored: in a slot of one object, or once for all objects. -/
inductive Place
  | slot (o : ObjectId) (key : SlotKey)
  | shared (key : StaticKey)
  deriving DecidableEq

/-- Where a field of an object is stored. -/
def Field.place (f : Field) (o : ObjectId) : Place :=
  if f.modifiers.isStatic then .shared (f.declaring, f.position) else .slot o (f.declaring, f.name)

namespace Heap
variable {h after : Heap} {o : ObjectId} {f : Field} {key : SlotKey} {value : Value}

/-- What is at a place, if something was stored there. -/
def at? (h : Heap) : Place → Option Value
  | .slot o key => (h.object o).get? key
  | .shared key => h.statics.lookup key

/-- Whether a place belongs to an object that exists, or to none. -/
def Has (h : Heap) : Place → Prop
  | .slot o _ => o.index < h.objects.length
  | .shared _ => True

/-- Whether a field has a place in the heap. -/
def Stores (h : Heap) (o : ObjectId) (f : Field) : Prop :=
  f.modifiers.isStatic = true ∨ (f.declaring, f.name) ∈ (h.object o).keys

/-- Objects that do not exist have no slots. -/
theorem lt_of_mem_keys (member : key ∈ (h.object o).keys) : o.index < h.objects.length := by
  refine Nat.lt_of_not_le fun out => ?_
  rw [object, List.getElem?_eq_none out] at member
  cases member

theorem Stores.has (stores : h.Stores o f) : h.Has (f.place o) := by
  rw [Field.place]
  split
  · trivial
  · rename_i instance_field
    exact lt_of_mem_keys (stores.resolve_left instance_field)

/-! ## Reading -/

theorem readField_eq_ok (stores : h.Stores o f) :
    h.readField o f = .ok ((h.at? (f.place o)).getD f.initial) := by
  rw [readField, Field.place]
  split
  · rfl
  · rename_i instance_field
    obtain ⟨value, found⟩ := Instance.mem_keys_iff.mp (stores.resolve_left instance_field)
    rw [Instance.get, at?, found]
    rfl

theorem readField_of_at? (found : h.at? (f.place o) = some value) :
    h.readField o f = .ok value := by
  rw [Field.place] at found
  rw [readField]
  split
  · rename_i shared
    rw [if_pos shared, at?] at found
    rw [found]
    rfl
  · rename_i instance_field
    rw [if_neg instance_field, at?] at found
    rw [Instance.get, found]

/-- What a field reads as depends on what is at its place, and on the type of the object. -/
theorem readField_congr {later : Heap} (same : later.at? (f.place o) = h.at? (f.place o))
    (type : (later.object o).type = (h.object o).type) :
    later.readField o f = h.readField o f := by
  rw [Field.place] at same
  rw [readField, readField]
  split
  · rename_i shared
    rw [if_pos shared] at same
    exact congrArg (fun found => Except.ok (found.getD f.initial)) same
  · rename_i instance_field
    rw [if_neg instance_field] at same
    have found : (later.object o).get? (f.declaring, f.name) =
      (h.object o).get? (f.declaring, f.name) := same
    rw [Instance.get, Instance.get, Instance.noSlot, Instance.noSlot, type, found]

/-! ## Writing -/

/-- The heap with one object replaced. -/
theorem object_set (here : o.index < h.objects.length) (x : Instance) (other : ObjectId) :
    object { h with objects := h.objects.set o.index x } other =
      if other = o then x else h.object other := by
  rw [object, List.getElem?_set]
  split
  · rename_i same
    obtain rfl : other = o := by
      cases other
      cases o
      exact congrArg _ same.symm
    rw [if_pos rfl]
    rfl
  · rename_i different
    rw [if_neg fun same => different (congrArg ObjectId.index same).symm]
    rfl

theorem setSlot_eq_ok :
    h.setSlot o key value = .ok after ↔ key ∈ (h.object o).keys ∧ after = { h with
      objects := h.objects.set o.index
        { h.object o with slots := Instance.putSlot key value (h.object o).slots } } := by
  rw [setSlot]
  cases done : (h.object o).set key value with
  | error fault =>
    have absent : key ∉ (h.object o).keys := fun member => by
      rw [Instance.set_eq_ok.mpr ⟨member, rfl⟩] at done
      cases done
    exact ⟨nofun, fun found => absurd found.1 absent⟩
  | ok x =>
    obtain ⟨member, rfl⟩ := Instance.set_eq_ok.mp done
    constructor
    · intro same
      cases same
      exact ⟨member, rfl⟩
    · rintro ⟨-, rfl⟩
      rfl

/-- A later heap in which the objects have the types and the slots that they had. -/
def Keeps (h later : Heap) : Prop :=
  ∀ o : ObjectId, o.index < h.objects.length → o.index < later.objects.length ∧
    (later.object o).type = (h.object o).type ∧ (later.object o).keys = (h.object o).keys

namespace Keeps

theorem refl (h : Heap) : h.Keeps h := fun _ here => ⟨here, rfl, rfl⟩

theorem trans {later last : Heap} (first : h.Keeps later) (second : later.Keeps last) :
    h.Keeps last := by
  intro o here
  obtain ⟨there, type, keys⟩ := first o here
  obtain ⟨last_there, type', keys'⟩ := second o there
  exact ⟨last_there, type'.trans type, keys'.trans keys⟩

theorem has {later : Heap} (keeps : h.Keeps later) {p : Place} (here : h.Has p) : later.Has p := by
  cases p with
  | slot o key => exact (keeps o here).1
  | shared key => trivial

end Keeps

/-- The objects are the same but for what is in their slots. -/
structure SameShape (h later : Heap) : Prop where
  length : later.objects.length = h.objects.length
  type : ∀ o, (later.object o).type = (h.object o).type
  keys : ∀ o, (later.object o).keys = (h.object o).keys

theorem SameShape.keeps {later : Heap} (same : h.SameShape later) : h.Keeps later :=
  fun o here => ⟨same.length ▸ here, same.type o, same.keys o⟩

theorem setSlot_sameShape (done : h.setSlot o key value = .ok after) : h.SameShape after := by
  obtain ⟨member, rfl⟩ := setSlot_eq_ok.mp done
  have here := lt_of_mem_keys member
  refine ⟨List.length_set, fun other => ?_, fun other => ?_⟩
  · rw [object_set here]
    split
    · rename_i same
      rw [same]
    · rfl
  · rw [object_set here]
    split
    · rename_i same
      rw [same]
      exact Instance.keys_putSlot member
    · rfl

theorem at?_setSlot (done : h.setSlot o key value = .ok after) (p : Place) :
    after.at? p = if p = .slot o key then some value else h.at? p := by
  obtain ⟨member, rfl⟩ := setSlot_eq_ok.mp done
  cases p with
  | shared key' => rw [if_neg nofun, at?, at?]
  | slot other key' =>
    rw [at?, at?, object_set (lt_of_mem_keys member), Instance.get?]
    by_cases same : other = o
    · subst same
      rw [if_pos rfl, Instance.lookup_putSlot]
      simp only [Place.slot.injEq, true_and]
      rfl
    · rw [if_neg same, if_neg fun h => same (Place.slot.inj h).1]
      rfl

theorem writeField_sameShape (done : h.writeField o f value = .ok after) : h.SameShape after := by
  rw [writeField] at done
  split at done
  · cases done
    exact ⟨rfl, fun _ => rfl, fun _ => rfl⟩
  · exact setSlot_sameShape done

/-- Writing a field changes what is at its place and nothing else. -/
theorem at?_writeField (done : h.writeField o f value = .ok after) (p : Place) :
    after.at? p = if p = f.place o then some value else h.at? p := by
  rw [writeField] at done
  rw [Field.place]
  split at done
  · rename_i shared
    cases done
    rw [if_pos shared]
    cases p with
    | slot other key => rw [if_neg nofun, at?, at?, object, object]
    | shared key =>
      rw [at?, at?, List.lookup_cons]
      by_cases same : key = (f.declaring, f.position)
      · simp [same]
      · simp [beq_false_of_ne same, same]
  · rename_i instance_field
    rw [if_neg instance_field]
    exact at?_setSlot done p

theorem writeField_succeeds (stores : h.Stores o f) (value : Value) :
    ∃ after, h.writeField o f value = .ok after := by
  rw [writeField]
  split
  · exact ⟨_, rfl⟩
  · rename_i instance_field
    exact ⟨_, setSlot_eq_ok.mpr ⟨stores.resolve_left instance_field, rfl⟩⟩

/-! ## Adding objects -/

theorem object_add_of_lt (x : Instance) (here : o.index < h.objects.length) :
    (h.add x).2.object o = h.object o := by
  rw [object, add, List.getElem?_append_left here]
  rfl

theorem object_add_new (x : Instance) : (h.add x).2.object (h.add x).1 = x := by
  simp [object, add]

theorem add_keeps (x : Instance) : h.Keeps (h.add x).2 := by
  intro o here
  rw [object_add_of_lt x here]
  refine ⟨?_, rfl, rfl⟩
  rw [add, List.length_append]
  exact Nat.lt_add_right _ here

theorem at?_add (x : Instance) {p : Place} (here : h.Has p) : (h.add x).2.at? p = h.at? p := by
  cases p with
  | slot o key => rw [at?, at?, object_add_of_lt x here]
  | shared key => rfl

end Heap

end PropertyTables
