import PropertyTables.Registry.Growth
import Mathlib.Logic.Relation

/-! # Registries over whole runs

* `Registry.Step`: one reservation, one declaration or one interned array type; a failing operation
  is no step. `Registry.Reachable`: what such steps make of the built-in types.
* `Registry.step_cases`: a step declares nothing or one new type; an array type only over a declared
  component that had none.
* `Registry.Extends`: every declaration is kept.
* `Registry.Coherent`: the invariant of reachable registries. The root type is a class without
  supertypes, components are declared, and each has at most one array type.
-/

namespace PropertyTables
set_option autoImplicit false

theorem TypeId.index_ne {id : TypeId} {n : Nat} (h : id ≠ ⟨n⟩) : id.index ≠ n :=
  fun same => h (same ▸ rfl)

namespace Registry

/-- Whether the type of an identity is declared. -/
def Published (r : Registry) (id : TypeId) : Prop := (r.find? id).isSome

instance (r : Registry) (id : TypeId) : Decidable (r.Published id) :=
  inferInstanceAs (Decidable (_ = true))

theorem published_iff {r : Registry} {id : TypeId} : r.Published id ↔ ∃ d, r.find? id = some d :=
  Option.isSome_iff_exists

theorem Published.of_find? {r : Registry} {id : TypeId} {d : Declaration}
    (h : r.find? id = some d) : r.Published id :=
  published_iff.mpr ⟨d, h⟩

theorem find_eq_ok {r : Registry} {id : TypeId} {d : Declaration} :
    r.find id = .ok d ↔ r.find? id = some d := by
  rw [find]
  cases r.find? id <;> simp

theorem Published.fullName {r : Registry} {id : TypeId} (h : r.Published id) :
    ∃ name, r.fullName id = .ok name := by
  obtain ⟨d, found⟩ := published_iff.mp h
  exact ⟨d.fullName, by rw [Registry.fullName, find_eq_ok.mpr found]; rfl⟩

theorem find_eq_error {r : Registry} {id : TypeId} (unknown : r.find? id = none) :
    r.find id = .error (.typeNotFound id) := by
  rw [find, unknown]

/-! ## What single operations do -/

theorem find?_append (r : Registry) (slot : Option Declaration) (names : Index TypeId)
    (fits : ∀ d, slot = some d → d.id = ⟨r.size⟩) (id : TypeId) :
    (r.append slot names fits).find? id = if id = ⟨r.size⟩ then slot else r.find? id := by
  by_cases last : id = ⟨r.size⟩
  · subst last
    simp [find?, append, size]
  · have off : id.index ≠ r.slots.length := TypeId.index_ne last
    rw [if_neg last, find?, find?, append]
    rcases Nat.lt_or_ge id.index r.slots.length with bound | bound
    · rw [List.getElem?_append_left bound]
    · have past : id.index - r.slots.length ≠ 0 := by omega
      rw [List.getElem?_append_right bound, List.getElem?_eq_none bound]
      simp [past]

theorem find?_size (r : Registry) : r.find? ⟨r.size⟩ = none := by
  simp [find?, size]

theorem publish_eq_ok {r grown : Registry} {draft : Draft} (h : r.publish draft = .ok grown) :
    r.find? draft.id = none ∧
      ∀ id, grown.find? id = if id = draft.id then some draft.declaration else r.find? id := by
  unfold publish at h
  split at h
  · cases h
  · cases h
  · rename_i reserved
    cases h
    refine ⟨by simp [find?, reserved], fun id => ?_⟩
    by_cases here : id = draft.id
    · subst here
      obtain ⟨bound, -⟩ := List.getElem?_eq_some_iff.mp reserved
      simp [find?, bound]
    · have off : draft.id.index ≠ id.index := (TypeId.index_ne here).symm
      rw [if_neg here, find?, find?, List.getElem?_set_ne off]

theorem findArray?_eq_none {r : Registry} {component : TypeId}
    (h : r.findArray? component = none) {id : TypeId} {d : Declaration}
    (found : r.find? id = some d) : d.flavor ≠ .array component := by
  rw [findArray?, Option.map_eq_none_iff, List.findIdx?_eq_none_iff] at h
  have slot := h _ (List.mem_of_getElem? (find?_eq_some.mp found))
  simpa using slot

theorem findArray?_eq_some {r : Registry} {component id : TypeId}
    (h : r.findArray? component = some id) :
    ∃ d, r.find? id = some d ∧ d.flavor = .array component := by
  obtain ⟨i, found, rfl⟩ := Option.map_eq_some_iff.mp h
  obtain ⟨bound, array, -⟩ := List.findIdx?_eq_some_iff_getElem.mp found
  cases slot : r.slots[i] with
  | none => simp [slot] at array
  | some d =>
    rw [slot] at array
    refine ⟨d, find?_eq_some.mpr ?_, by simpa using array⟩
    rw [List.getElem?_eq_getElem bound, slot]

theorem internArray_known {r : Registry} {component id : TypeId}
    (known : r.findArray? component = some id) : r.internArray component = .ok (id, r) := by
  rw [internArray, known]

theorem internArray_undeclared {r : Registry} {component : TypeId}
    (unknown : r.findArray? component = none) (undeclared : r.find? component = none) :
    r.internArray component = .error (.typeNotFound component) := by
  simp only [internArray, unknown]
  split
  · rfl
  · rename_i element found
    cases undeclared.symm.trans found

theorem internArray_fresh {r : Registry} {component : TypeId} {element : Declaration}
    (unknown : r.findArray? component = none) (found : r.find? component = some element) :
    r.internArray component =
      let d := arrayDeclaration ⟨r.size⟩ component element (lt_size_of_find? found)
      .ok (d.id, r.append (some d) (r.names.insert d.fullName d.id) (by rintro _ ⟨⟩; rfl)) := by
  simp only [internArray, unknown]
  split
  · rename_i undeclared
    cases undeclared.symm.trans found
  · rename_i other found'
    cases found.symm.trans found'
    rfl

/-- Interning finds an array type, or puts one behind all declarations. -/
theorem internArray_cases {r grown : Registry} {component id : TypeId}
    (h : r.internArray component = .ok (id, grown)) :
    (r.findArray? component = some id ∧ grown = r) ∨
    ∃ element, ∃ found : r.find? component = some element,
      let d := arrayDeclaration ⟨r.size⟩ component element (lt_size_of_find? found)
      r.findArray? component = none ∧ id = d.id ∧
        grown = r.append (some d) (r.names.insert d.fullName d.id) (by rintro _ ⟨⟩; rfl) := by
  rcases (r.findArray? component).eq_none_or_eq_some with unknown | ⟨array, known⟩
  · rcases (r.find? component).eq_none_or_eq_some with undeclared | ⟨element, found⟩
    · rw [internArray_undeclared unknown undeclared] at h
      cases h
    · rw [internArray_fresh unknown found] at h
      cases h
      exact .inr ⟨element, found, unknown, rfl, rfl⟩
  · rw [internArray_known known] at h
    cases h
    exact .inl ⟨known, rfl⟩

theorem internArray_succeeds {r : Registry} {component : TypeId} (declared : r.Published component) :
    ∃ id grown, r.internArray component = .ok (id, grown) := by
  obtain ⟨element, found⟩ := published_iff.mp declared
  cases known : r.findArray? component with
  | some id => exact ⟨id, r, internArray_known known⟩
  | none => exact ⟨_, _, internArray_fresh known found⟩

theorem internArray_eq_ok {r grown : Registry} {component id : TypeId}
    (h : r.internArray component = .ok (id, grown)) :
    (r.findArray? component = some id ∧ grown = r) ∨
    (r.findArray? component = none ∧ id = ⟨r.size⟩ ∧
      ∃ element later, r.find? component = some element ∧ ∀ other, grown.find? other =
        if other = ⟨r.size⟩ then some (arrayDeclaration ⟨r.size⟩ component element later)
        else r.find? other) := by
  rcases internArray_cases h with known | ⟨element, found, unknown, rfl, rfl⟩
  · exact .inl known
  · exact .inr ⟨unknown, rfl, element, _, found, find?_append _ _ _ _⟩

/-! ## Steps and runs -/

/-- One operation that succeeds. -/
inductive Step : Registry → Registry → Prop
  | reserve (r : Registry) (space name : String) (kind : DraftKind) :
      Step r (r.reserve space name kind).2
  | publish {r grown : Registry} (draft : Draft) (h : r.publish draft = .ok grown) : Step r grown
  | internArray {r grown : Registry} {component id : TypeId}
      (h : r.internArray component = .ok (id, grown)) : Step r grown

/-- What operations make of the built-in types, in any number and order. -/
def Reachable (r : Registry) : Prop := Relation.ReflTransGen Step initial r

theorem step_cases {r grown : Registry} (h : Step r grown) :
    (∀ id, grown.find? id = r.find? id) ∨
    ∃ id d, r.find? id = none ∧
      (∀ other, grown.find? other = if other = id then some d else r.find? other) ∧
      ∀ component, d.flavor = .array component →
        r.Published component ∧ r.findArray? component = none := by
  cases h with
  | reserve space name kind =>
    refine .inl fun id => ?_
    rw [Registry.reserve, find?_append]
    split
    · rename_i last
      rw [last, find?_size]
    · rfl
  | publish draft h =>
    obtain ⟨fresh, after⟩ := publish_eq_ok h
    refine .inr ⟨_, _, fresh, after, fun component array => ?_⟩
    cases kind : draft.kind <;> simp [Draft.declaration, kind, DraftKind.flavor] at array
  | internArray h =>
    rcases internArray_eq_ok h with ⟨-, rfl⟩ | ⟨unknown, -, element, later, found, after⟩
    · exact .inl fun _ => rfl
    · refine .inr ⟨_, _, find?_size r, after, fun c array => ?_⟩
      obtain rfl : _ = c := Flavor.array.inj array
      exact ⟨.of_find? found, unknown⟩

/-- Reserves an identity and declares its type at once. -/
def declared (r : Registry) (space name : String) (kind : DraftKind) (write : Draft → Draft) :
    Registry :=
  match (r.reserve space name kind).2.publish (write (r.reserve space name kind).1) with
  | .ok grown => grown
  | .error _ => (r.reserve space name kind).2

/-- Interns the array type of a component. -/
def withArray (r : Registry) (component : TypeId) : Registry :=
  match r.internArray component with
  | .ok (_, grown) => grown
  | .error _ => r

theorem Reachable.declared {r : Registry} (h : r.Reachable) (space name : String)
    (kind : DraftKind) (write : Draft → Draft) :
    (r.declared space name kind write).Reachable := by
  have reserved := h.tail (.reserve r space name kind)
  unfold Registry.declared
  split
  · rename_i grown ok
    exact reserved.tail (.publish _ ok)
  · exact reserved

theorem Reachable.withArray {r : Registry} (h : r.Reachable) (component : TypeId) :
    (r.withArray component).Reachable := by
  unfold Registry.withArray
  split
  · rename_i id grown ok
    exact h.tail (.internArray ok)
  · exact h

/-! ## Declarations are kept -/

/-- Whether a registry has every declaration of another. -/
def Extends (r grown : Registry) : Prop := ∀ id d, r.find? id = some d → grown.find? id = some d

theorem Extends.published {r grown : Registry} (h : r.Extends grown) {id : TypeId}
    (declared : r.Published id) : grown.Published id := by
  obtain ⟨d, found⟩ := published_iff.mp declared
  exact .of_find? (h id d found)

theorem Step.extends {r grown : Registry} (h : Step r grown) : r.Extends grown := by
  intro id d found
  rcases step_cases h with same | ⟨new, e, fresh, after, -⟩
  · rw [same, found]
  · have other : id ≠ new := by
      rintro rfl
      rw [fresh] at found
      cases found
    rw [after, if_neg other, found]

theorem Reachable.extends {r : Registry} (h : r.Reachable) : initial.Extends r := by
  induction h with
  | refl => exact fun _ _ found => found
  | tail _ step ih => exact fun id d found => step.extends id d (ih id d found)

/-! ## The invariant -/

/-- What holds of every reachable registry. -/
structure Coherent (r : Registry) : Prop where
  root : ∃ d, r.find? .object = some d ∧ d.flavor = .classType ∧ d.superclass = none ∧
    d.interfaces = []
  component_published : ∀ id d component, r.find? id = some d → d.flavor = .array component →
    r.Published component
  array_unique : ∀ i j d e component, r.find? i = some d → r.find? j = some e →
    d.flavor = .array component → e.flavor = .array component → i = j

theorem initial_flavor {id : TypeId} {d : Declaration} (h : initial.find? id = some d)
    (component : TypeId) : d.flavor ≠ .array component := by
  have listed : some d ∈ builtins.map some := List.mem_of_getElem? (find?_eq_some.mp h)
  obtain ⟨e, member, same⟩ := List.mem_map.mp listed
  cases same
  simp only [builtins, Primitive.all, List.map_cons, List.map_nil, List.mem_cons,
    List.not_mem_nil, or_false] at member
  rcases member with rfl | rfl | rfl | rfl | rfl | rfl | rfl | rfl | rfl | rfl | rfl <;> simp

theorem initial_coherent : initial.Coherent where
  root := ⟨_, rfl, rfl, rfl, rfl⟩
  component_published _ _ component found array := absurd array (initial_flavor found component)
  array_unique _ _ _ _ component found _ array _ := absurd array (initial_flavor found component)

theorem Step.coherent {r grown : Registry} (h : Step r grown) (hr : r.Coherent) :
    grown.Coherent where
  root := by
    obtain ⟨d, found, rest⟩ := hr.root
    exact ⟨d, h.extends _ _ found, rest⟩
  component_published := by
    intro id d component found array
    refine h.extends.published ?_
    rcases step_cases h with same | ⟨new, e, fresh, after, arrays⟩
    · exact hr.component_published id d component (same id ▸ found) array
    · rw [after] at found
      split at found
      · cases found
        exact (arrays component array).1
      · exact hr.component_published id d component found array
  array_unique := by
    intro i j d e component hi hj di ej
    rcases step_cases h with same | ⟨new, a, fresh, after, arrays⟩
    · exact hr.array_unique i j d e component (same i ▸ hi) (same j ▸ hj) di ej
    · rw [after] at hi hj
      split at hi <;> split at hj
      · rename_i here there
        rw [here, there]
      · cases hi
        exact absurd ej (findArray?_eq_none (arrays component di).2 hj)
      · cases hj
        exact absurd di (findArray?_eq_none (arrays component ej).2 hi)
      · exact hr.array_unique i j d e component hi hj di ej

theorem Reachable.coherent {r : Registry} (h : r.Reachable) : r.Coherent := by
  induction h with
  | refl => exact initial_coherent
  | tail _ step ih => exact step.coherent ih

end Registry

end PropertyTables
