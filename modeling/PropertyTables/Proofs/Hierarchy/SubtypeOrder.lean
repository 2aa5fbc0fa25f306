import PropertyTables.Proofs.Hierarchy.Supertypes
import Mathlib

/-! # Subtyping is a partial order

* `Registry.IsSubtype`: the declared subtype relation, one rule for each way of being a subtype.
* `isAssignable_iff`: in a registry whose supertypes are all declared, the check always answers, and
  it answers what the relation says.
* `IsSubtype.trans`, `IsSubtype.antisymm`: the two laws of the relation, by induction on the first
  derivation; arrays hand both over to their components.
* `isAssignable_partial_order`: the laws for the check itself.
-/

namespace PropertyTables
set_option autoImplicit false

/-- Classes and interfaces: the types that have a name of their own. -/
def Flavor.isNominal : Flavor → Bool
  | classType => true
  | interfaceType => true
  | _ => false

theorem Flavor.isPrimitive_eq_false {f : Flavor} (h : f.isNominal) : f.isPrimitive = false := by
  cases f <;> simp_all [isNominal, isPrimitive]

theorem Flavor.isNominal_eq_true {f : Flavor} (reference : f.isPrimitive = false)
    (other : ∀ component, f ≠ .array component) : f.isNominal := by
  cases f <;> simp_all [isNominal, isPrimitive]

namespace Registry

/-! ## The relation -/

/-- Whether the values of type `s` are values of type `t`. -/
inductive IsSubtype (r : Registry) : TypeId → TypeId → Prop
  | refl (t : TypeId) : IsSubtype r t t
  | root {s : TypeId} {d : Declaration} (found : r.find? s = some d)
      (reference : d.flavor.isPrimitive = false) : IsSubtype r s .object
  | array {s t element component : TypeId} {d e : Declaration} (source : r.find? s = some d)
      (target : r.find? t = some e) (below : d.flavor = .array element)
      (above : e.flavor = .array component) (h : IsSubtype r element component) : IsSubtype r s t
  | nominal {s t : TypeId} {d e : Declaration} (source : r.find? s = some d)
      (target : r.find? t = some e) (below : d.flavor.isNominal) (above : e.flavor.isNominal)
      (path : Relation.ReflTransGen r.DeclaredSupertype s t) : IsSubtype r s t

variable {r : Registry} {a b c : TypeId}

/-! ## The top of the hierarchy -/

theorem Coherent.eq_object_of_path (hr : r.Coherent)
    (path : Relation.ReflTransGen r.DeclaredSupertype .object a) : a = .object := by
  obtain ⟨d, found, -, parent, interfaces⟩ := hr.root
  rcases path.cases_head with same | ⟨t, edge, -⟩
  · exact same.symm
  · obtain ⟨e, declared, clause, member, -⟩ := declaredSupertype_iff.mp edge
    obtain rfl : d = e := by simpa [found] using declared
    simp [Declaration.clauses, parent, interfaces] at member

theorem Coherent.object_nominal (hr : r.Coherent) {d : Declaration}
    (found : r.find? .object = some d) : d.flavor = .classType := by
  obtain ⟨e, declared, flavor, -⟩ := hr.root
  obtain rfl : e = d := by simpa [declared] using found
  exact flavor

theorem Coherent.eq_object_of_isSubtype (hr : r.Coherent) (h : r.IsSubtype .object a) :
    a = .object := by
  cases h with
  | refl => rfl
  | root => rfl
  | array source _ below =>
    rw [hr.object_nominal source] at below
    cases below
  | nominal _ _ _ _ path => exact hr.eq_object_of_path path

/-! ## The check answers what the relation says -/

/-- The three ways in which one type is below another. -/
theorem IsSubtype.inversion {s t : TypeId} {d e : Declaration} (h : r.IsSubtype s t)
    (differ : t ≠ s) (source : r.find? s = some d) (target : r.find? t = some e) :
    (t = .object ∧ d.flavor.isPrimitive = false) ∨
    (∃ element component, d.flavor = .array element ∧ e.flavor = .array component ∧
      r.IsSubtype element component) ∨
    (d.flavor.isNominal ∧ e.flavor.isNominal ∧
      Relation.ReflTransGen r.DeclaredSupertype s t) := by
  cases h with
  | refl => exact absurd rfl differ
  | root found reference =>
    obtain rfl := Option.some.inj (source.symm.trans found)
    exact .inl ⟨rfl, reference⟩
  | array source' target' below above h =>
    obtain rfl := Option.some.inj (source.symm.trans source')
    obtain rfl := Option.some.inj (target.symm.trans target')
    exact .inr (.inl ⟨_, _, below, above, h⟩)
  | nominal source' target' below above path =>
    obtain rfl := Option.some.inj (source.symm.trans source')
    obtain rfl := Option.some.inj (target.symm.trans target')
    exact .inr (.inr ⟨below, above, path⟩)

theorem Coherent.not_isSubtype_of_primitive (hr : r.Coherent) {s t : TypeId} {d e : Declaration}
    (differ : t ≠ s) (source : r.find? s = some d) (target : r.find? t = some e)
    (primitive : (e.flavor.isPrimitive || d.flavor.isPrimitive) = true) : ¬ r.IsSubtype s t := by
  intro h
  rcases h.inversion differ source target with ⟨rfl, reference⟩ | ⟨x, y, below, above, -⟩ |
    ⟨below, above, -⟩
  · rw [hr.object_nominal target, reference] at primitive
    cases primitive
  · rw [below, above] at primitive
    cases primitive
  · rw [Flavor.isPrimitive_eq_false below, Flavor.isPrimitive_eq_false above] at primitive
    cases primitive

theorem not_isSubtype_of_one_array {s t : TypeId} {d e : Declaration} (differ : t ≠ s)
    (source : r.find? s = some d) (target : r.find? t = some e) (top : t ≠ .object)
    (one : (∃ x, d.flavor = .array x) ∨ ∃ x, e.flavor = .array x)
    (other : ∀ x y, d.flavor = .array x → e.flavor = .array y → False) : ¬ r.IsSubtype s t := by
  intro h
  rcases h.inversion differ source target with ⟨same, -⟩ | ⟨x, y, below, above, -⟩ |
    ⟨below, above, -⟩
  · exact top same
  · exact other x y below above
  · rcases one with ⟨x, array⟩ | ⟨x, array⟩
    · rw [array] at below
      cases below
    · rw [array] at above
      cases above

theorem isAssignable_iff (hr : r.Coherent) (closed : r.SupertypesPublished) {target source : TypeId}
    (ht : r.Published target) (hs : r.Published source) :
    ∃ answer, r.isAssignable target source = .ok answer ∧
      (answer = true ↔ r.IsSubtype source target) := by
  fun_induction isAssignable r target source with
  | case1 source => exact ⟨true, rfl, by simp [IsSubtype.refl]⟩
  | case2 target source differ undeclared =>
    rw [Published, undeclared] at ht
    cases ht
  | case3 target source differ undeclared =>
    rw [Published, undeclared] at hs
    cases hs
  | case4 target source differ t s target_found source_found primitive =>
    have no := hr.not_isSubtype_of_primitive differ source_found target_found primitive
    exact ⟨false, rfl, by simp [no]⟩
  | case5 source t s source_found reference differ target_found =>
    simp only [Bool.or_eq_true, not_or, Bool.not_eq_true] at reference
    have yes : r.IsSubtype source .object := .root source_found reference.2
    exact ⟨true, rfl, by simp [yes]⟩
  | case6 target source differ t s target_found source_found reference top component element
      above below ih =>
    obtain ⟨answer, ok, meaning⟩ := ih (hr.component_published _ _ _ target_found above)
      (hr.component_published _ _ _ source_found below)
    refine ⟨answer, ok, meaning.trans ⟨.array source_found target_found below above, fun h => ?_⟩⟩
    rcases h.inversion differ source_found target_found with ⟨same, -⟩ | ⟨x, y, hx, hy, h⟩ |
      ⟨nominal, -⟩
    · exact absurd same top
    · obtain rfl := Flavor.array.inj (below.symm.trans hx)
      obtain rfl := Flavor.array.inj (above.symm.trans hy)
      exact h
    · rw [below] at nominal
      cases nominal
  | case7 target source differ t s target_found source_found reference top component above other =>
    have no := not_isSubtype_of_one_array differ source_found target_found top
      (.inr ⟨component, above⟩) fun x _ below _ => other x below
    exact ⟨false, rfl, by simp [no]⟩
  | case8 target source differ t s target_found source_found reference top element below other =>
    have no := not_isSubtype_of_one_array differ source_found target_found top
      (.inl ⟨element, below⟩) fun _ y _ above => other y above
    exact ⟨false, rfl, by simp [no]⟩
  | case9 target source differ t s target_found source_found reference top not_above not_below =>
    simp only [Bool.or_eq_true, not_or, Bool.not_eq_true] at reference
    refine ⟨_, reaches_eq_ok closed target hs, ?_⟩
    rw [decide_eq_true_iff, mem_supertypeWalk]
    constructor
    · exact .nominal source_found target_found (Flavor.isNominal_eq_true reference.2 not_below)
        (Flavor.isNominal_eq_true reference.1 not_above)
    · intro h
      rcases h.inversion differ source_found target_found with ⟨same, -⟩ | ⟨x, -, below, -⟩ |
        ⟨-, -, path⟩
      · exact absurd same top
      · exact (not_below x below).elim
      · exact path

theorem isAssignable_answers (hr : r.Coherent) (closed : r.SupertypesPublished)
    {target source : TypeId} (ht : r.Published target) (hs : r.Published source) :
    ∃ answer, r.isAssignable target source = .ok answer := by
  obtain ⟨answer, ok, -⟩ := isAssignable_iff hr closed ht hs
  exact ⟨answer, ok⟩

theorem isAssignable_eq_true (hr : r.Coherent) (closed : r.SupertypesPublished)
    {target source : TypeId} (ht : r.Published target) (hs : r.Published source) :
    r.isAssignable target source = .ok true ↔ r.IsSubtype source target := by
  obtain ⟨answer, ok, meaning⟩ := isAssignable_iff hr closed ht hs
  rw [ok, ← meaning, Except.ok.injEq]

/-! ## The order laws -/

theorem IsSubtype.trans (hr : r.Coherent) (hab : r.IsSubtype a b) (hbc : r.IsSubtype b c) :
    r.IsSubtype a c := by
  induction hab generalizing c with
  | refl => exact hbc
  | root found reference =>
    rw [hr.eq_object_of_isSubtype hbc]
    exact .root found reference
  | array source middle below above _ ih =>
    cases hbc with
    | refl => exact .array source middle below above ‹_›
    | root => exact .root source (by rw [below]; rfl)
    | array middle' target above' top h =>
      obtain rfl := Option.some.inj (middle.symm.trans middle')
      obtain rfl := Flavor.array.inj (above.symm.trans above')
      exact .array source target below top (ih h)
    | nominal middle' _ nominal =>
      obtain rfl := Option.some.inj (middle.symm.trans middle')
      rw [above] at nominal
      cases nominal
  | nominal source middle below above path =>
    cases hbc with
    | refl => exact .nominal source middle below above path
    | root => exact .root source (Flavor.isPrimitive_eq_false below)
    | array middle' _ array =>
      obtain rfl := Option.some.inj (middle.symm.trans middle')
      rw [array] at above
      cases above
    | nominal _ target _ top rest => exact .nominal source target below top (path.trans rest)

theorem IsSubtype.antisymm (hr : r.Coherent) (acyclic : r.Acyclic) (hab : r.IsSubtype a b)
    (hba : r.IsSubtype b a) : a = b := by
  induction hab with
  | refl => rfl
  | root => exact hr.eq_object_of_isSubtype hba
  | @array s t element component d e source target below above h ih =>
    by_cases same : s = t
    · exact same
    rcases hba.inversion same target source with ⟨rfl, -⟩ | ⟨x, y, hx, hy, back⟩ | ⟨nominal, -⟩
    · rw [hr.object_nominal source] at below
      cases below
    · obtain rfl := Flavor.array.inj (above.symm.trans hx)
      obtain rfl := Flavor.array.inj (below.symm.trans hy)
      obtain rfl := ih back
      exact hr.array_unique _ _ _ _ _ source target below above
    · rw [above] at nominal
      cases nominal
  | @nominal s t d e source target below above path =>
    by_cases same : s = t
    · exact same
    rcases hba.inversion same target source with ⟨rfl, -⟩ | ⟨x, y, hx, hy, back⟩ | ⟨-, -, back⟩
    · exact (hr.eq_object_of_path path).symm
    · rw [hx] at above
      cases above
    · rcases Relation.reflTransGen_iff_eq_or_transGen.mp path with same | proper
      · exact same.symm
      · exact absurd (proper.trans_left back) (acyclic s)

/-! ## The order that the check decides -/

theorem isAssignable_trans (hr : r.Coherent) (closed : r.SupertypesPublished) {t u v : TypeId}
    (ht : r.Published t) (hu : r.Published u) (hv : r.Published v)
    (htu : r.isAssignable t u = .ok true) (huv : r.isAssignable u v = .ok true) :
    r.isAssignable t v = .ok true := by
  rw [isAssignable_eq_true hr closed ht hu] at htu
  rw [isAssignable_eq_true hr closed hu hv] at huv
  exact (isAssignable_eq_true hr closed ht hv).mpr (huv.trans hr htu)

theorem isAssignable_self (t : TypeId) : r.isAssignable t t = .ok true := by
  rw [isAssignable, if_pos rfl]

theorem isAssignable_partial_order {r : Registry} (reachable : r.Reachable)
    (closed : r.SupertypesPublished) :
    (∀ a, r.Published a → r.isAssignable a a = .ok true) ∧
    (∀ a b c, r.Published a → r.Published b → r.Published c → r.isAssignable b a = .ok true →
      r.isAssignable c b = .ok true → r.isAssignable c a = .ok true) ∧
    (r.Acyclic → ∀ a b, r.Published a → r.Published b → r.isAssignable a b = .ok true →
      r.isAssignable b a = .ok true → a = b) := by
  have hr := reachable.coherent
  have decides (t s : TypeId) (ht : r.Published t) (hs : r.Published s) :
      r.isAssignable t s = .ok true ↔ r.IsSubtype s t := by
    obtain ⟨answer, ok, meaning⟩ := isAssignable_iff hr closed ht hs
    rw [ok, ← meaning, Except.ok.injEq]
  refine ⟨fun a ha => ?_, fun a b c ha hb hc hab hbc => ?_, fun acyclic a b ha hb hba hab => ?_⟩
  · exact (decides a a ha ha).mpr (.refl a)
  · rw [decides _ _ hb ha] at hab
    rw [decides _ _ hc hb] at hbc
    exact (decides c a hc ha).mpr (hab.trans hr hbc)
  · rw [decides _ _ ha hb] at hba
    rw [decides _ _ hb ha] at hab
    exact hab.antisymm hr acyclic hba

/-- An interface, a class below it, a class below that, and the array type of each of them, the
lowest first. -/
def shapes : Registry :=
  (((((initial.declared "" "Shape" .interfaceType id).declared "" "Polygon" .classType
    (·.implementing (.named ⟨11⟩))).declared "" "Square" .classType
    (·.extending (.named ⟨12⟩))).withArray ⟨13⟩).withArray ⟨12⟩).withArray ⟨11⟩

theorem shapes_reachable : shapes.Reachable := by
  have types : ((initial.declared "" "Shape" .interfaceType id).declared "" "Polygon" .classType
      (·.implementing (.named ⟨11⟩))).Reachable :=
    (Reachable.declared .refl _ _ _ _).declared _ _ _ _
  exact (((types.declared _ _ _ _).withArray _).withArray _).withArray _

theorem shapes_acyclic : shapes.Acyclic :=
  acyclic_of_rank (·.index) (forall_supertypes_iff.mpr (by decide +kernel))

/-- Arrays of squares are arrays of shapes by way of arrays of polygons, and not the other way
round. -/
theorem isAssignable_partial_order_shapes :
    shapes.Reachable ∧ shapes.SupertypesPublished ∧ shapes.Acyclic ∧
      shapes.isAssignable ⟨16⟩ ⟨14⟩ = .ok true ∧ shapes.isAssignable ⟨14⟩ ⟨16⟩ ≠ .ok true := by
  have closed : shapes.SupertypesPublished := by decide +kernel
  obtain ⟨-, trans, antisymm⟩ := isAssignable_partial_order shapes_reachable closed
  have up : shapes.isAssignable ⟨16⟩ ⟨14⟩ = .ok true :=
    trans ⟨14⟩ ⟨15⟩ ⟨16⟩ (by decide +kernel) (by decide +kernel) (by decide +kernel) (by cbv)
      (by cbv)
  refine ⟨shapes_reachable, closed, shapes_acyclic, up, fun down => ?_⟩
  have same := antisymm shapes_acyclic ⟨14⟩ ⟨16⟩ (by decide +kernel) (by decide +kernel) down up
  cases same

end Registry

end PropertyTables
