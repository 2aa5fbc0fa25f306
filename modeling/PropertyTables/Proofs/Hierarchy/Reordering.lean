import PropertyTables.Proofs.Generics.Lasting
import PropertyTables.Proofs.Hierarchy.SubtypeOrder

/-! # Reordered declarations

* `Registry.Reordered`: two registries that differ in the order of methods and of interfaces only.
* `Reordered.isAssignable`: subtyping is the same in both, and so are array types,
  `Reordered.findArray?`, and erased types, `Reordered.erase`.
-/

namespace PropertyTables
set_option autoImplicit false

/-- Whether two declarations differ in the order of their methods and interfaces at most. -/
structure Declaration.Reordered (d e : Declaration) : Prop where
  space : d.space = e.space
  name : d.name = e.name
  flavor : d.flavor = e.flavor
  isAbstract : d.isAbstract = e.isAbstract
  isFinal : d.isFinal = e.isFinal
  typeParams : d.typeParams = e.typeParams
  superclass : d.superclass = e.superclass
  interfaces : d.interfaces.Perm e.interfaces
  methods : d.methods.Perm e.methods
  fields : d.fields = e.fields
  constructors : d.constructors = e.constructors

theorem Declaration.Reordered.refl (d : Declaration) : d.Reordered d :=
  ⟨rfl, rfl, rfl, rfl, rfl, rfl, rfl, .refl _, .refl _, rfl, rfl⟩

theorem Declaration.Reordered.symm {d e : Declaration} (h : d.Reordered e) : e.Reordered d where
  space := h.space.symm
  name := h.name.symm
  flavor := h.flavor.symm
  isAbstract := h.isAbstract.symm
  isFinal := h.isFinal.symm
  typeParams := h.typeParams.symm
  superclass := h.superclass.symm
  interfaces := h.interfaces.symm
  methods := h.methods.symm
  fields := h.fields.symm
  constructors := h.constructors.symm

namespace Registry

/-- Whether two registries declare the same types under the same identities and names, with methods
and interfaces in whatever order. -/
structure Reordered (r s : Registry) : Prop where
  size : r.size = s.size
  names : r.names = s.names
  alike : ∀ id, Option.Rel Declaration.Reordered (r.find? id) (s.find? id)

namespace Reordered
variable {r s : Registry}

theorem symm (h : r.Reordered s) : s.Reordered r where
  size := h.size.symm
  names := h.names.symm
  alike id := by
    have alike := h.alike id
    generalize r.find? id = d, s.find? id = e at alike ⊢
    cases alike with
    | some reordered => exact .some reordered.symm
    | none => exact .none

theorem of_slots (names : r.names = s.names)
    (slots : List.Forall₂ (Option.Rel Declaration.Reordered) r.slots s.slots) :
    r.Reordered s where
  size := slots.length_eq
  names := names
  alike id := by
    rw [find?, find?]
    by_cases bound : id.index < r.slots.length
    · have bound' : id.index < s.slots.length := slots.length_eq ▸ bound
      rw [List.getElem?_eq_getElem bound, List.getElem?_eq_getElem bound']
      exact slots.get bound bound'
    · have out : r.slots.length ≤ id.index := Nat.le_of_not_lt bound
      rw [List.getElem?_eq_none out, List.getElem?_eq_none (slots.length_eq ▸ out)]
      exact .none

theorem declared (h : r.Reordered s) (id : TypeId) (d : Declaration) (found : r.find? id = some d) :
    ∃ e, s.find? id = some e ∧ d.Reordered e := by
  have alike := h.alike id
  rw [found] at alike
  cases there : s.find? id with
  | none =>
    rw [there] at alike
    cases alike
  | some e =>
    rw [there] at alike
    obtain ⟨reordered⟩ := alike
    exact ⟨e, rfl, reordered⟩

theorem undeclared (h : r.Reordered s) (id : TypeId) (unknown : r.find? id = none) :
    s.find? id = none := by
  have alike := h.alike id
  rw [unknown] at alike
  cases there : s.find? id with
  | none => rfl
  | some e =>
    rw [there] at alike
    cases alike

theorem published (h : r.Reordered s) {id : TypeId} (declared : r.Published id) :
    s.Published id := by
  obtain ⟨d, found⟩ := published_iff.mp declared
  obtain ⟨e, found, -⟩ := h.declared id _ found
  exact .of_find? found

theorem fullName (h : r.Reordered s) (id : TypeId) : r.fullName id = s.fullName id := by
  rw [Registry.fullName, Registry.fullName, find, find]
  cases found : r.find? id with
  | none => rw [h.undeclared id found]
  | some d =>
    obtain ⟨e, found, reordered⟩ := h.declared id _ found
    rw [found]
    show Except.ok d.fullName = Except.ok e.fullName
    rw [Declaration.fullName, Declaration.fullName, reordered.space, reordered.name]

/-! ## Supertypes -/

theorem superclass? (h : r.Reordered s) (id : TypeId) : r.superclass? id = s.superclass? id := by
  rw [Registry.superclass?, Registry.superclass?]
  cases found : r.find? id with
  | none => rw [h.undeclared id found]
  | some d =>
    obtain ⟨e, found, reordered⟩ := h.declared id _ found
    rw [found, Option.bind_some, Option.bind_some, Declaration.superclass?, Declaration.superclass?,
      reordered.superclass]

theorem superinterfaces (h : r.Reordered s) (id : TypeId) :
    (r.superinterfaces id).Perm (s.superinterfaces id) := by
  rw [Registry.superinterfaces, Registry.superinterfaces]
  cases found : r.find? id with
  | none => rw [h.undeclared id found]
  | some d =>
    obtain ⟨e, found, reordered⟩ := h.declared id _ found
    rw [found]
    exact reordered.interfaces.filterMap _

theorem declaredSupertype (h : r.Reordered s) {a b : TypeId} :
    r.DeclaredSupertype a b ↔ s.DeclaredSupertype a b := by
  rw [DeclaredSupertype, DeclaredSupertype, supertypes, supertypes, h.superclass? a]
  simp only [List.mem_append, List.mem_reverse, (h.superinterfaces a).mem_iff]

theorem declaredSupertype_eq (h : r.Reordered s) : r.DeclaredSupertype = s.DeclaredSupertype :=
  funext fun _ => funext fun _ => propext h.declaredSupertype

theorem supertypesPublished (h : r.Reordered s) (closed : r.SupertypesPublished) :
    s.SupertypesPublished :=
  fun a b edge => h.published (closed a b (h.declaredSupertype.mpr edge))

/-! ## Subtyping -/

theorem reaches (h : r.Reordered s) (closed : r.SupertypesPublished) (target : TypeId)
    {source : TypeId} (published : r.Published source) :
    r.reaches target source = s.reaches target source := by
  rw [reaches_eq_ok closed target published,
    reaches_eq_ok (h.supertypesPublished closed) target (h.published published)]
  have walks : target ∈ r.supertypeWalk source ↔ target ∈ s.supertypeWalk source := by
    rw [mem_supertypeWalk, mem_supertypeWalk, h.declaredSupertype_eq]
  rw [decide_eq_decide.mpr walks]

theorem isAssignable (h : r.Reordered s) (closed : r.SupertypesPublished)
    (target source : TypeId) : r.isAssignable target source = s.isAssignable target source := by
  by_cases same : target = source
  · rw [Registry.isAssignable, Registry.isAssignable, if_pos same, if_pos same]
  rw [isAssignable_of_ne r same, isAssignable_of_ne s same]
  cases above : r.find? target with
  | none =>
    rw [find_eq_error above, find_eq_error (h.undeclared target above)]
    rfl
  | some t =>
    obtain ⟨t', above', target_alike⟩ := h.declared target _ above
    cases below : r.find? source with
    | none =>
      rw [find_eq_ok.mpr above, find_eq_ok.mpr above', find_eq_error below,
        find_eq_error (h.undeclared source below)]
      rfl
    | some d =>
      obtain ⟨d', below', source_alike⟩ := h.declared source _ below
      rw [find_eq_ok.mpr above, find_eq_ok.mpr above', find_eq_ok.mpr below, find_eq_ok.mpr below']
      show (if _ then _ else _) = if _ then _ else _
      rw [target_alike.flavor, source_alike.flavor, h.reaches closed target (.of_find? below)]
      split
      · rfl
      · split
        · rfl
        · split
          · rename_i component element array _
            have smaller := component_lt_of_find? above' array
            exact h.isAssignable closed component element
          · rfl
          · rfl
          · rfl
termination_by target.index

/-! ## Erasure -/

theorem slots_map (h : r.Reordered s) {p : Option Declaration → Bool}
    (alike : ∀ d e, d.Reordered e → p (some d) = p (some e)) : r.slots.map p = s.slots.map p := by
  have length : r.slots.length = s.slots.length := h.size
  refine List.ext_getElem? fun i => ?_
  rw [List.getElem?_map, List.getElem?_map]
  by_cases bound : i < r.slots.length
  · have bound' : i < s.slots.length := length ▸ bound
    rw [List.getElem?_eq_getElem bound, List.getElem?_eq_getElem bound']
    have left : r.find? ⟨i⟩ = r.slots[i] := by
      rw [Registry.find?, List.getElem?_eq_getElem bound]
      rfl
    have right : s.find? ⟨i⟩ = s.slots[i] := by
      rw [Registry.find?, List.getElem?_eq_getElem bound']
      rfl
    rw [← left, ← right]
    cases found : r.find? ⟨i⟩ with
    | none => rw [h.undeclared ⟨i⟩ found]
    | some d =>
      obtain ⟨e, found', reordered⟩ := h.declared ⟨i⟩ d found
      rw [found', Option.map_some, Option.map_some, alike d e reordered]
  · have out : r.slots.length ≤ i := Nat.le_of_not_lt bound
    rw [List.getElem?_eq_none out, List.getElem?_eq_none (length ▸ out)]

theorem findArray? (h : r.Reordered s) (component : TypeId) :
    r.findArray? component = s.findArray? component := by
  have same := h.slots_map (p := fun slot => slot.any (·.flavor = .array component))
    fun d e reordered => by simp [reordered.flavor]
  rw [Registry.findArray?, Registry.findArray?]
  have split (l : List (Option Declaration)) (p : Option Declaration → Bool) :
      l.findIdx? p = (l.map p).findIdx? id := by rw [List.findIdx?_map, Function.id_comp]
  rw [split, same, ← split]

/-- What erasure finds without interning anything, it finds in both. -/
theorem erase (h : r.Reordered s) {t : GenericType} {id : TypeId}
    (done : t.erase.eval r = (.ok id, r)) : t.erase.eval s = (.ok id, s) := by
  induction t using GenericType.induction_on_parts generalizing id with
  | named id' =>
    cases done
    rfl
  | applied raw args _ =>
    cases done
    rfl
  | typeVar name =>
    cases done
    rfl
  | wildcard upper lower _ _ =>
    cases done
    rfl
  | array component ih =>
    have interning (element : TypeId) := Growing.Lasting.arrayOf element
    obtain ⟨element, inner, outer⟩ :=
      (component.erase_lasting.bind_settled interning).mp done
    refine (component.erase_lasting.bind_settled interning).mpr ⟨element, ih inner, ?_⟩
    rw [Growing.arrayOf_settled] at outer ⊢
    exact (h.findArray? element).symm.trans outer

end Reordered

end Registry

end PropertyTables
