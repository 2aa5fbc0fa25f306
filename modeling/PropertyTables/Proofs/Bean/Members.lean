import PropertyTables.Draft
import PropertyTables.Proofs.Bean.Names
import PropertyTables.Proofs.Heap.Allocation
import PropertyTables.Proofs.Table.Naming

/-! # Bean classes

* `Registry.beanDraft`: a class that is written by naming properties, one after the other.
* `Property.method`: the accessors of a property. `Declaration.IsBean` lists what the class has, and
  `isBean_beanDraft` says that it is what the draft describes.
* `Property.Apart`: properties that get along in one class. Then no two methods have one name, and
  each property has one candidate on each side.
-/

namespace PropertyTables
set_option autoImplicit false

/-- A name and a type. -/
abbrev Property := String × GenericType

/-- A class with the given properties and nothing else, under the identity that is next. -/
def Registry.beanDraft (r : Registry) (space name : String) (props : List Property) : Draft :=
  props.foldl (fun d p => d.property p.1 p.2) (r.reserve space name .classType).1

/-! ## Members -/

/-- The accessor method of a property. -/
def Property.method (owner : TypeId) (p : Property) : Side → Method
  | .read => {
      name := PropertyName.accessor .read p.1
      declaring := owner
      returns := p.2
      params := []
      typeParams := []
      modifiers := { isPublic := true }
      body := some (.readSlot owner p.1) }
  | .write => {
      name := PropertyName.accessor .write p.1
      declaring := owner
      returns := .named Primitive.void.typeId
      params := [p.2]
      typeParams := []
      modifiers := { isPublic := true }
      body := some (.writeSlot owner p.1) }

/-- The accessor methods of some properties, in the order in which they are declared. -/
def Property.methods (owner : TypeId) (props : List Property) : List Method :=
  props.flatMap fun p => [p.method owner .read, p.method owner .write]

/-- What a class has that is written by naming properties. -/
structure Declaration.IsBean (d : Declaration) (props : List Property) : Prop where
  typeParams : d.typeParams = []
  superclass : d.superclass = some (.named .object)
  interfaces : d.interfaces = []
  methods : d.methods = Property.methods d.id props
  fields : d.fields.map (fun f => (f.name, f.modifiers, f.initial)) =
    props.map fun p => (p.1, { isPrivate := true }, p.2.initial)

/-- What naming further properties adds. -/
theorem foldl_property (props : List Property) (d : Draft) :
    let after := props.foldl (fun d p => d.property p.1 p.2) d
    after.id = d.id ∧ after.kind = d.kind ∧ after.typeParams = d.typeParams ∧
      after.superclass = d.superclass ∧ after.interfaces = d.interfaces ∧
      after.members.methods = d.members.methods ++ Property.methods d.id props ∧
      after.members.fields.map (fun f => (f.name, f.modifiers, f.initial)) =
        d.members.fields.map (fun f => (f.name, f.modifiers, f.initial)) ++
          props.map fun p => (p.1, { isPrivate := true }, p.2.initial) := by
  induction props generalizing d with
  | nil => simp [Property.methods]
  | cons p rest ih =>
    obtain ⟨id, kind, typeParams, superclass, interfaces, methods, fields⟩ :=
      ih (d.property p.1 p.2)
    refine ⟨id, kind, typeParams, superclass, interfaces, ?_, ?_⟩
    · have first : (d.property p.1 p.2).members.methods =
          d.members.methods ++ [p.method d.id .read] ++ [p.method d.id .write] := rfl
      rw [List.foldl_cons, methods, first]
      simp only [Property.methods, List.flatMap_cons, List.append_assoc, List.cons_append,
        List.nil_append]
      rfl
    · rw [List.foldl_cons, fields]
      simp [Draft.property, Draft.privateField, Draft.field, Draft.method, Members.addMethod,
        Members.addField]

theorem Registry.isBean_beanDraft (r : Registry) (space name : String) (props : List Property) :
    (r.beanDraft space name props).declaration.IsBean props := by
  obtain ⟨same, kind, typeParams, superclass, interfaces, methods, fields⟩ :=
    foldl_property props (r.reserve space name .classType).1
  refine ⟨typeParams, ?_, interfaces, ?_, fields⟩
  · have parent : (r.beanDraft space name props).superclass = none := superclass
    have sort : (r.beanDraft space name props).kind = .classType := kind
    simp only [Draft.declaration, parent, sort]
  · have all : (r.beanDraft space name props).members.methods =
        Property.methods (r.reserve space name .classType).1.id props := methods
    exact all.trans (congrArg (Property.methods · props) same.symm)

/-! ## Properties that get along -/

/-- Whether some properties have faithful names, no two the same. -/
structure Property.Apart (props : List Property) : Prop where
  nodup : (props.map (·.1)).Nodup
  faithful : ∀ p ∈ props, PropertyName.Faithful p.1

namespace Property
variable {owner : TypeId} {p : Property} {props : List Property}

theorem method_name (side : Side) :
    (p.method owner side).name = PropertyName.accessor side p.1 := by
  cases side <;> rfl

theorem method_mem_methods (member : p ∈ props) (side : Side) :
    p.method owner side ∈ methods owner props := by
  refine List.mem_flatMap.mpr ⟨p, member, ?_⟩
  cases side <;> simp

theorem isAccessor_method (faithful : PropertyName.Faithful p.1) (side side' : Side) :
    (p.method owner side).isAccessor side' = decide (side = side') :=
  faithful.isAccessor (method_name side) (by cases side <;> rfl)

namespace Apart

theorem tail {rest : List Property} (h : Apart (p :: rest)) : Apart rest where
  nodup := (List.nodup_cons.mp h.nodup).2
  faithful q hq := h.faithful q (List.mem_cons_of_mem p hq)

/-- A property is known by its name. -/
theorem eq_of_name (h : Apart props) {q : Property} (hp : p ∈ props) (hq : q ∈ props)
    (same : q.1 = p.1) : q = p :=
  List.inj_on_of_nodup_map h.nodup hq hp same

theorem names_nodup (h : Apart props) : ((methods owner props).map Method.name).Nodup := by
  induction props with
  | nil => exact .nil
  | cons p rest ih =>
    have here := h.faithful p List.mem_cons_self
    have fresh : ∀ side, PropertyName.accessor side p.1 ∉ (methods owner rest).map Method.name := by
      intro side listed
      obtain ⟨m, member, named⟩ := List.mem_map.mp listed
      obtain ⟨q, later, accessor⟩ := List.mem_flatMap.mp member
      have other : ∃ side', m.name = PropertyName.accessor side' q.1 := by
        rcases List.mem_pair.mp accessor with rfl | rfl
        · exact ⟨.read, rfl⟩
        · exact ⟨.write, rfl⟩
      obtain ⟨side', written⟩ := other
      have faithful := h.faithful q (List.mem_cons_of_mem p later)
      have same := (faithful.accessor_inj here (written.symm.trans named)).2
      have repeated : p.1 ∈ rest.map (·.1) := by
        rw [← same]
        exact List.mem_map_of_mem later
      exact (List.nodup_cons.mp h.nodup).1 repeated
    have differ : PropertyName.accessor .read p.1 ≠ PropertyName.accessor .write p.1 := by
      intro same
      cases (here.accessor_inj here same).1
    show (PropertyName.accessor .read p.1 :: PropertyName.accessor .write p.1 ::
      (methods owner rest).map Method.name).Nodup
    refine List.nodup_cons.mpr ⟨?_, List.nodup_cons.mpr ⟨fresh .write, ih h.tail⟩⟩
    exact fun listed => (List.mem_cons.mp listed).elim differ (fresh .read)

/-- Each accessor stands for its property. -/
theorem accessors_methods (h : Apart props) (side : Side) :
    accessors side (methods owner props) = props.map fun p => (p.1, p.method owner side) := by
  induction props with
  | nil => rfl
  | cons p rest ih =>
    have here := h.faithful p List.mem_cons_self
    have later := ih h.tail
    have split : methods owner (p :: rest) =
        p.method owner .read :: p.method owner .write :: methods owner rest := rfl
    rw [accessors] at later ⊢
    simp only [split, List.filterMap_cons, isAccessor_method here, later, List.map_cons, method_name,
      here.ofAccessor]
    cases side <;> rfl

theorem candidates_methods (h : Apart props) (member : p ∈ props) (side : Side) :
    candidates p.1 (accessors side (methods owner props)) = [p.method owner side] := by
  have alone : props.filter (·.1 == p.1) = [p] := by
    obtain ⟨before, after, rfl⟩ := List.append_of_mem member
    have nodup := h.nodup
    rw [List.map_append, List.map_cons, List.nodup_middle, List.nodup_cons, List.mem_append] at nodup
    have others (l : List Property) (absent : p.1 ∉ l.map (·.1)) : l.filter (·.1 == p.1) = [] := by
      refine List.filter_eq_nil_iff.mpr fun q hq same => absent ?_
      exact (beq_iff_eq.mp same) ▸ List.mem_map_of_mem hq
    obtain ⟨first, last⟩ := not_or.mp nodup.1
    simp [others before first, others after last]
  rw [h.accessors_methods, candidates, List.filter_map, List.map_map]
  show (props.filter (·.1 == p.1)).map (fun p => p.method owner side) = _
  rw [alone]
  rfl

end Apart

end Property

/-! ## Fields -/

namespace Declaration.IsBean
variable {d : Declaration} {props : List Property}

theorem exists_property (h : d.IsBean props) {f : Field} (listed : f ∈ d.fields) :
    ∃ p ∈ props, f.name = p.1 ∧ f.modifiers.isStatic = false ∧ f.initial = p.2.initial := by
  have shown := List.mem_map_of_mem (f := fun f : Field => (f.name, f.modifiers, f.initial)) listed
  rw [h.fields] at shown
  obtain ⟨p, member, same⟩ := List.mem_map.mp shown
  obtain ⟨name, modifiers, initial⟩ : p.1 = f.name ∧ { isPrivate := true } = f.modifiers ∧
      p.2.initial = f.initial := by simpa using same
  exact ⟨p, member, name.symm, modifiers ▸ rfl, initial.symm⟩

theorem exists_field (h : d.IsBean props) {p : Property} (member : p ∈ props) :
    ∃ f ∈ d.fields, f.modifiers.isStatic = false ∧ f.name = p.1 := by
  have shown : (p.1, ({ isPrivate := true } : Modifiers), p.2.initial) ∈
      d.fields.map fun f => (f.name, f.modifiers, f.initial) := by
    rw [h.fields]
    exact List.mem_map_of_mem (f := fun p : Property =>
      (p.1, ({ isPrivate := true } : Modifiers), p.2.initial)) member
  obtain ⟨f, listed, same⟩ := List.mem_map.mp shown
  obtain ⟨name, modifiers, -⟩ : f.name = p.1 ∧ f.modifiers = { isPrivate := true } ∧
      f.initial = p.2.initial := by simpa using same
  exact ⟨f, listed, modifiers ▸ rfl, name⟩

/-- The slot of a property starts with the initial value of its type. -/
theorem initial? (h : d.IsBean props) (apart : Property.Apart props) {p : Property}
    (member : p ∈ props) : d.initial? p.1 = some p.2.initial := by
  obtain ⟨value, found⟩ : ∃ value, d.initial? p.1 = some value :=
    Option.isSome_iff_exists.mp (initial?_isSome.mpr (h.exists_field member))
  obtain ⟨f, last, initial⟩ := Option.map_eq_some_iff.mp found
  rw [List.findRev?_eq_find?_reverse] at last
  have listed : f ∈ d.fields :=
    List.mem_of_mem_filter (List.mem_reverse.mp (List.mem_of_find?_eq_some last))
  have named : f.name = p.1 := by simpa using List.find?_some last
  obtain ⟨q, member', name, -, initial'⟩ := h.exists_property listed
  obtain rfl := apart.eq_of_name member member' (name.symm.trans named)
  rw [found, ← initial, initial']

end Declaration.IsBean

end PropertyTables
