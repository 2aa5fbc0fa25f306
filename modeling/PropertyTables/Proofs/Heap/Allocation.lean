import PropertyTables.Proofs.Heap.Places
import PropertyTables.Proofs.Hierarchy.SuperclassChain
import PropertyTables.Proofs.Registry.Evaluation

/-! # New objects

* `Declaration.initial?`: what a new object holds in the slot of a declared field.
* `Registry.initialSlots_lookup`: the slots that the classes of a chain give.
* `Registry.allocate_eq_ok`, `Registry.allocate_get?`: when there is a new object, and what its
  slots hold. `Registry.mem_allocate_keys`: it has a slot for each instance field of the chain.
-/

namespace PropertyTables
set_option autoImplicit false

/-- The instance fields of a type. -/
def Declaration.instanceFields (d : Declaration) : List Field :=
  d.fields.filter fun f => !f.modifiers.isStatic

/-- What a new object holds in the slot of that name of a type; the last field of the name counts. -/
def Declaration.initial? (d : Declaration) (name : String) : Option Value :=
  (d.instanceFields.findRev? (·.name == name)).map (·.initial)

theorem Declaration.initial?_isSome {d : Declaration} {name : String} :
    (d.initial? name).isSome ↔ ∃ f ∈ d.fields, f.modifiers.isStatic = false ∧ f.name = name := by
  rw [initial?, Option.isSome_map, List.findRev?_eq_find?_reverse, List.find?_isSome]
  simp [instanceFields, and_assoc]

namespace Registry
variable {r : Registry}

/-! ## The slots of a chain -/

/-- The slots that the fields of one type give; those of other types stay as they are. -/
theorem putFields_lookup (id : TypeId) (fields : List Field) (slots : List (SlotKey × Value))
    (key : SlotKey) :
    (fields.foldl (fun slots f => Instance.putSlot (id, f.name) f.initial slots) slots).lookup key =
      if key.1 = id then ((fields.findRev? (·.name == key.2)).map (·.initial)).or (slots.lookup key)
      else slots.lookup key := by
  induction fields generalizing slots with
  | nil => simp
  | cons f rest ih =>
    rw [List.foldl_cons, ih, Instance.lookup_putSlot, List.findRev?]
    by_cases here : key.1 = id
    · rw [if_pos here, if_pos here]
      cases rest.findRev? (·.name == key.2) with
      | some g => rfl
      | none =>
        by_cases named : f.name = key.2
        · simp [← here, named]
        · have other : key ≠ (id, f.name) := fun same => named (congrArg Prod.snd same).symm
          simp [other, named]
    · have other : key ≠ (id, f.name) := fun same => here (congrArg Prod.fst same)
      rw [if_neg here, if_neg here, if_neg other]

theorem putFields_nodup (id : TypeId) (fields : List Field) {slots : List (SlotKey × Value)}
    (h : (slots.map (·.1)).Nodup) :
    ((fields.foldl (fun slots f => Instance.putSlot (id, f.name) f.initial slots) slots).map
      (·.1)).Nodup := by
  induction fields generalizing slots with
  | nil => exact h
  | cons f rest ih => exact ih (Instance.nodup_putSlot h)

theorem initialSlots_cons {id : TypeId} {rest : List TypeId} {slots made : List (SlotKey × Value)} :
    r.initialSlots slots (id :: rest) = .ok made ↔ ∃ d, r.find? id = some d ∧
      r.initialSlots (d.instanceFields.foldl
        (fun slots f => Instance.putSlot (id, f.name) f.initial slots) slots) rest = .ok made := by
  rw [initialSlots, bind_eq_ok]
  exact exists_congr fun d => and_congr_left' find_eq_ok

theorem initialSlots_published {slots made : List (SlotKey × Value)} {ids : List TypeId}
    (done : r.initialSlots slots ids = .ok made) : ∀ id ∈ ids, r.Published id := by
  induction ids generalizing slots with
  | nil => simp
  | cons id rest ih =>
    obtain ⟨d, found, done⟩ := initialSlots_cons.mp done
    exact List.forall_mem_cons.mpr ⟨.of_find? found, ih done⟩

theorem initialSlots_nodup {slots made : List (SlotKey × Value)} {ids : List TypeId}
    (done : r.initialSlots slots ids = .ok made) (h : (slots.map (·.1)).Nodup) :
    (made.map (·.1)).Nodup := by
  induction ids generalizing slots with
  | nil =>
    cases done
    exact h
  | cons id rest ih =>
    obtain ⟨d, found, done⟩ := initialSlots_cons.mp done
    exact ih done (putFields_nodup id _ h)

theorem initialSlots_lookup {slots made : List (SlotKey × Value)} {ids : List TypeId}
    (distinct : ids.Nodup) (done : r.initialSlots slots ids = .ok made) (key : SlotKey) :
    made.lookup key =
      if key.1 ∈ ids then ((r.find? key.1).bind (·.initial? key.2)).or (slots.lookup key)
      else slots.lookup key := by
  induction ids generalizing slots with
  | nil =>
    cases done
    rfl
  | cons id rest ih =>
    obtain ⟨d, found, done⟩ := initialSlots_cons.mp done
    obtain ⟨fresh, distinct⟩ := List.nodup_cons.mp distinct
    rw [ih distinct done, putFields_lookup]
    by_cases here : key.1 = id
    · rw [if_neg (here ▸ fresh), if_pos here, if_pos (List.mem_cons.mpr (.inl here)), here, found]
      rfl
    · simp only [List.mem_cons, here, false_or, if_false]

/-! ## Allocation -/

theorem allocate_eq_ok {id : TypeId} {o : Instance} (allocated : r.allocate id = .ok o) :
    ∃ slots, r.initialSlots [] (r.superclassChain id) = .ok slots ∧ o = ⟨id, slots⟩ := by
  obtain ⟨d, -, allocated⟩ := bind_eq_ok.mp allocated
  by_cases class_type : d.flavor = .classType
  · cases abstract_class : d.isAbstract with
    | false =>
      simp only [class_type, abstract_class, ne_eq, not_true_eq_false, if_false,
        Bool.false_eq_true] at allocated
      obtain ⟨slots, made, same⟩ := bind_pure_eq_ok.mp allocated
      exact ⟨slots, made, same.symm⟩
    | true =>
      rw [if_neg (not_not_intro class_type), if_pos abstract_class] at allocated
      cases allocated
  · rw [if_pos class_type] at allocated
    cases allocated

variable {id : TypeId} {o : Instance}

theorem allocate_type (allocated : r.allocate id = .ok o) : o.type = id := by
  obtain ⟨slots, -, rfl⟩ := allocate_eq_ok allocated
  rfl

theorem allocate_published (allocated : r.allocate id = .ok o) :
    ∀ t ∈ r.superclassChain id, r.Published t := by
  obtain ⟨slots, made, -⟩ := allocate_eq_ok allocated
  exact initialSlots_published made

theorem allocate_nodup (allocated : r.allocate id = .ok o) : o.keys.Nodup := by
  obtain ⟨slots, made, rfl⟩ := allocate_eq_ok allocated
  exact initialSlots_nodup made .nil

theorem allocate_get? (allocated : r.allocate id = .ok o) (key : SlotKey) :
    o.get? key = if key.1 ∈ r.superclassChain id then (r.find? key.1).bind (·.initial? key.2)
      else none := by
  obtain ⟨slots, made, rfl⟩ := allocate_eq_ok allocated
  rw [Instance.get?, initialSlots_lookup (r.superclassChain_nodup id) made, List.lookup_nil,
    Option.or_none]

/-- A new object has one slot for each name of an instance field in each class of its chain. -/
theorem mem_allocate_keys (allocated : r.allocate id = .ok o) {key : SlotKey} :
    key ∈ o.keys ↔ key.1 ∈ r.superclassChain id ∧ ∃ d, r.find? key.1 = some d ∧
      ∃ f ∈ d.fields, f.modifiers.isStatic = false ∧ f.name = key.2 := by
  rw [Instance.mem_keys_iff, ← Option.isSome_iff_exists, allocate_get? allocated]
  split
  · rename_i listed
    cases found : r.find? key.1 with
    | none => simp
    | some d => simp [listed, Declaration.initial?_isSome]
  · rename_i off
    simp [off]

end Registry

end PropertyTables
