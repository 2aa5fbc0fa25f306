import PropertyTables.Draft
import PropertyTables.Registry

/-! # How registries grow

* `Registry.initial`: the registry that holds the built-in types only.
* `Registry.reserve`, `Registry.publish`, `Registry.internArray`: the three ways in which a registry
  grows. There is one array type for each component type.
* `Growing`: computations that may intern array types. Types interned before a fault stay.
-/

namespace PropertyTables
set_option autoImplicit false

namespace Registry

/-! ## The built-in types -/

/-- The root type, the type of texts and the primitives, each at its identity. -/
def builtins : List Declaration :=
  { id := .object, space := "", name := "Object", flavor := .classType } ::
  { id := .string, space := "", name := "String", flavor := .classType, isFinal := true,
    superclass := some (.named .object) } ::
  Primitive.all.map fun p => { id := p.typeId, space := "", name := p.name, flavor := .primitive p }

theorem builtins_ids : builtins.map (·.id) = (List.range builtins.length).map TypeId.mk := rfl

/-- The registry that holds the built-in types only. -/
def initial : Registry where
  slots := builtins.map some
  names := Index.ofList (builtins.map fun d => (d.fullName, d.id))
  id_eq := by
    intro i d h
    have at_i : (builtins.map (·.id))[i]? = some d.id := by
      rw [List.getElem?_map] at h ⊢
      cases found : builtins[i]? <;> simp_all
    rw [builtins_ids, List.getElem?_map] at at_i
    obtain ⟨j, found, same⟩ := Option.map_eq_some_iff.mp at_i
    obtain ⟨_, rfl⟩ := List.getElem?_eq_some_iff.mp found
    rw [← same, List.getElem_range]

/-! ## Reserving and declaring -/

/-- Adds a slot at the end. -/
def append (r : Registry) (slot : Option Declaration) (names : Index TypeId)
    (fits : ∀ d, slot = some d → d.id = ⟨r.size⟩) : Registry where
  slots := r.slots ++ [slot]
  names := names
  id_eq := by
    intro i d h
    rcases Nat.lt_or_ge i r.slots.length with bound | bound
    · rw [List.getElem?_append_left bound] at h
      exact r.id_eq i d h
    · rw [List.getElem?_append_right bound] at h
      obtain ⟨last, found⟩ := List.getElem?_eq_some_iff.mp h
      have here : i = r.size := by
        simp only [List.length_singleton] at last
        rw [size]
        omega
      rw [here]
      exact fits d (by simpa using found)

/-- Hands out the next identity, for a type that is yet to be written. -/
def reserve (r : Registry) (space name : String) (kind : DraftKind) : Draft × Registry :=
  ({ id := ⟨r.size⟩, space := space, name := name, kind := kind },
    r.append none r.names (fun _ h => nomatch h))

/-- Declares the type of a reserved identity. -/
def publish (r : Registry) (draft : Draft) : Except Fault Registry :=
  match r.slots[draft.id.index]? with
  | none => .error (.typeNotFound draft.id)
  | some (some _) => .error (.alreadyPublished draft.declaration.fullName)
  | some none => .ok {
      slots := r.slots.set draft.id.index (some draft.declaration)
      names := r.names.insert draft.declaration.fullName draft.id
      id_eq := by
        intro i d h
        rw [List.getElem?_set] at h
        split at h
        · rename_i here
          split at h
          · obtain rfl : draft.declaration = d := by simpa using h
            exact here ▸ rfl
          · simp at h
        · exact r.id_eq i d h }

/-! ## Array types -/

/-- The array type of a component type, if it was interned. This stands for a map from component types
to their array types: every entry of such a map is put in together with the declaration of the array
type, so that the declarations say what the map has. -/
def findArray? (r : Registry) (component : TypeId) : Option TypeId :=
  (r.slots.findIdx? fun slot => slot.any (·.flavor = .array component)).map TypeId.mk

/-- The declaration of an array type: named after its component, and a subtype of the root type. -/
def arrayDeclaration (id component : TypeId) (element : Declaration)
    (later : component.index < id.index) : Declaration where
  id := id
  space := element.space
  name := element.name ++ "[]"
  flavor := .array component
  superclass := some (.named .object)
  component_lt := by
    intro c h
    cases h
    exact later

/-- The array type of a component type, declared if there was none. -/
def internArray (r : Registry) (component : TypeId) : Except Fault (TypeId × Registry) :=
  match r.findArray? component with
  | some id => .ok (id, r)
  | none =>
    match found : r.find? component with
    | none => .error (.typeNotFound component)
    | some element =>
      let d := arrayDeclaration ⟨r.size⟩ component element (lt_size_of_find? found)
      .ok (d.id, r.append (some d) (r.names.insert d.fullName d.id) (by rintro _ ⟨⟩; rfl))

end Registry

/-! ## Computations that intern array types -/

/-- A computation over a registry that it may add array types to. What it added before a fault
stays. -/
abbrev Growing := ExceptT Fault (StateM Registry)

namespace Growing

/-- An answer that the registry gives as it is. -/
def read {α : Type} (query : Registry → Except Fault α) : Growing α :=
  ExceptT.mk fun r => (query r, r)

/-- The array type of a component type. -/
def arrayOf (component : TypeId) : Growing TypeId :=
  ExceptT.mk fun r =>
    match r.internArray component with
    | .ok (id, grown) => (.ok id, grown)
    | .error fault => (.error fault, r)

end Growing

end PropertyTables
