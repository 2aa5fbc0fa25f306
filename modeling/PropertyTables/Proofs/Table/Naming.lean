import PropertyTables.Table.Build

/-! # Accessor methods have properties

* `Method.exists_ofAccessor`: the name of an accessor method stands for a property.
* `accessors`: the accessor methods with their properties, as a list alone. `nameAccessors_eq` says
  that naming them never fails, and `Table.build_eq` what building a table is then.
-/

namespace PropertyTables
set_option autoImplicit false

theorem isPrefixOf?_of_startsWithWord {word : List Char} {name : String}
    (h : startsWithWord word name = true) : ∃ rest, word.isPrefixOf? name.toList = some rest := by
  rw [startsWithWord] at h
  split at h
  · rename_i c rest found
    exact ⟨c :: rest, found⟩
  · cases h

/-- The name of an accessor method stands for a property. -/
theorem Method.exists_ofAccessor {m : Method} {side : Side} (h : m.isAccessor side = true) :
    ∃ property, PropertyName.ofAccessor m.name = .ok property := by
  have word : ∃ rest, PropertyName.afterAccessorWord? m.name = some rest := by
    rw [PropertyName.afterAccessorWord?]
    cases side with
    | read =>
      have getter : isGetterName m.name = true := (Bool.and_eq_true_iff.mp h).2
      rcases Bool.or_eq_true_iff.mp getter with get | is
      · obtain ⟨rest, found⟩ := isPrefixOf?_of_startsWithWord get
        rw [found]
        cases ['i', 's'].isPrefixOf? m.name.toList with
        | none => exact ⟨rest, rfl⟩
        | some other => exact ⟨other, rfl⟩
      · obtain ⟨rest, found⟩ := isPrefixOf?_of_startsWithWord is
        rw [found]
        exact ⟨rest, rfl⟩
    | write =>
      have setter : isSetterName m.name = true := (Bool.and_eq_true_iff.mp h).2
      obtain ⟨rest, found⟩ := isPrefixOf?_of_startsWithWord setter
      rw [found]
      cases ['i', 's'].isPrefixOf? m.name.toList with
      | none =>
        cases ['g', 'e', 't'].isPrefixOf? m.name.toList with
        | none => exact ⟨rest, rfl⟩
        | some other => exact ⟨other, rfl⟩
      | some other => exact ⟨other, rfl⟩
  obtain ⟨rest, found⟩ := word
  rw [PropertyName.ofAccessor, found]
  exact ⟨_, rfl⟩

/-- The accessor methods of one side with the properties that their names stand for. -/
def accessors (side : Side) (methods : List Method) : List (String × Method) :=
  methods.filterMap fun m =>
    if m.isAccessor side then (PropertyName.ofAccessor m.name).toOption.map (·, m) else none

theorem nameAccessors_eq (side : Side) (methods : List Method) :
    nameAccessors side methods = .ok (accessors side methods) := by
  induction methods with
  | nil => rfl
  | cons m rest ih =>
    rw [nameAccessors] at ih ⊢
    rw [List.filter_cons, accessors, List.filterMap_cons]
    cases accessor : m.isAccessor side with
    | false => exact ih
    | true =>
      obtain ⟨property, named⟩ := Method.exists_ofAccessor accessor
      rw [if_pos rfl, List.mapM_cons, ih, named]
      rfl

theorem mem_candidates {side : Side} {methods : List Method} {property : String} {m : Method}
    (member : m ∈ candidates property (accessors side methods)) : m ∈ methods := by
  obtain ⟨⟨_, _⟩, listed, rfl⟩ := List.mem_map.mp member
  obtain ⟨m', member', found⟩ := List.mem_filterMap.mp (List.mem_filter.mp listed).1
  split at found
  · obtain ⟨_, -, same⟩ := Option.map_eq_some_iff.mp found
    cases same
    exact member'
  · cases found

/-- Building a table, with the accessor methods as a list. -/
theorem Table.build_eq (type : TypeId) (limit : Nat) : Table.build type limit = (do
    let name ← Growing.read (·.fullName type)
    let methods ← collectMethods type limit
    let getters := accessors .read methods
    let readers ← getterEntries type getters {} (propertiesOf getters)
    let setters := accessors .write methods
    let writers ← setterEntries type setters readers {} (propertiesOf setters)
    let sides ← addFields type limit limit (some type) ⟨readers, writers⟩
    let d ← Growing.read (·.find type)
    return {
      type := type
      name := name
      readers := sides.readers
      writers := sides.writers
      defaultConstructor? := d.defaultConstructor? }) := by
  unfold Table.build
  simp only [nameAccessors_eq]
  rfl

end PropertyTables
