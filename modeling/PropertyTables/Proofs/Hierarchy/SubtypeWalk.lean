import PropertyTables.Proofs.Hierarchy.SubtypeOrder

/-! # What the subtype check decides

* `Registry.SubtypeRule`: the ways in which one declared type is below another. The subtype relation
  is the one that this rule leads to, `IsSubtype.iff_rule`.
* `isAssignable_decides`: where all supertypes are declared, the check always answers, also on
  cyclic hierarchies, and it answers what the rule says.
-/

namespace PropertyTables.Registry
set_option autoImplicit false

/-- Whether `source`, declared as `s`, is below `target`, declared as `t`: they are the same type;
or neither is primitive, and the target is the root type, or both are arrays of components in the
relation `below`, or neither is an array and supertype clauses lead from the one to the other. -/
def SubtypeRule (r : Registry) (below : TypeId → TypeId → Prop) (source target : TypeId)
    (s t : Declaration) : Prop :=
  source = target ∨
    s.flavor.isPrimitive = false ∧ t.flavor.isPrimitive = false ∧
      (target = .object ∨
        (∃ element component, s.flavor = .array element ∧ t.flavor = .array component ∧
          below element component) ∨
        (∀ element, s.flavor ≠ .array element) ∧ (∀ component, t.flavor ≠ .array component) ∧
          Relation.TransGen r.DeclaredSupertype source target)

section Rule
variable {r : Registry} {source target : TypeId} {s t : Declaration}

theorem SubtypeRule.congr {below below' : TypeId → TypeId → Prop}
    (same : ∀ element component, s.flavor = .array element → t.flavor = .array component →
      (below element component ↔ below' element component)) :
    r.SubtypeRule below source target s t ↔ r.SubtypeRule below' source target s t := by
  have arrays : (∃ element component, s.flavor = .array element ∧ t.flavor = .array component ∧
      below element component) ↔ ∃ element component, s.flavor = .array element ∧
      t.flavor = .array component ∧ below' element component := by
    refine exists_congr fun element => exists_congr fun component => ?_
    exact and_congr_right fun hs => and_congr_right fun ht => same element component hs ht
  rw [SubtypeRule, SubtypeRule, arrays]

theorem IsSubtype.rule (hr : r.Coherent) (source_found : r.find? source = some s)
    (target_found : r.find? target = some t) (h : r.IsSubtype source target) :
    r.SubtypeRule r.IsSubtype source target s t := by
  by_cases same : source = target
  · exact .inl same
  rcases h.inversion (Ne.symm same) source_found target_found with ⟨rfl, reference⟩ |
    ⟨element, component, hs, ht, h⟩ | ⟨hs, ht, path⟩
  · refine .inr ⟨reference, ?_, .inl rfl⟩
    rw [hr.object_nominal target_found]
    rfl
  · refine .inr ⟨?_, ?_, .inr (.inl ⟨element, component, hs, ht, h⟩)⟩
    · rw [hs]
      rfl
    · rw [ht]
      rfl
  · have edges : Relation.TransGen r.DeclaredSupertype source target :=
      (Relation.reflTransGen_iff_eq_or_transGen.mp path).resolve_left (Ne.symm same)
    have named {f : Flavor} (nominal : f.isNominal) (component : TypeId) : f ≠ .array component := by
      rintro rfl
      cases nominal
    exact .inr ⟨Flavor.isPrimitive_eq_false hs, Flavor.isPrimitive_eq_false ht,
      .inr (.inr ⟨named hs, named ht, edges⟩)⟩

theorem IsSubtype.iff_rule (hr : r.Coherent) (source_found : r.find? source = some s)
    (target_found : r.find? target = some t) :
    r.IsSubtype source target ↔ r.SubtypeRule r.IsSubtype source target s t := by
  refine ⟨fun h => h.rule hr source_found target_found, ?_⟩
  rintro (rfl | ⟨hs, ht, rfl | ⟨element, component, array, array', h⟩ | ⟨named, named', edges⟩⟩)
  · exact .refl source
  · exact .root source_found hs
  · exact .array source_found target_found array array' h
  · exact .nominal source_found target_found (Flavor.isNominal_eq_true hs named)
      (Flavor.isNominal_eq_true ht named') edges.to_reflTransGen

end Rule

/-- The check answers whatever the hierarchy is like. The answer is yes for the declared subtypes
alone: those that the rule gives, where the check itself is asked about components. -/
theorem isAssignable_decides {r : Registry} (reachable : r.Reachable)
    (closed : r.SupertypesPublished) {source target : TypeId} {s t : Declaration}
    (source_found : r.find? source = some s) (target_found : r.find? target = some t) :
    ∃ answer, r.isAssignable target source = .ok answer ∧
      (answer = true ↔ r.IsSubtype source target) ∧
      (answer = true ↔ r.SubtypeRule
        (fun element component => r.isAssignable component element = .ok true) source target s t) := by
  have hr := reachable.coherent
  obtain ⟨answer, ok, meaning⟩ :=
    isAssignable_iff hr closed (.of_find? target_found) (.of_find? source_found)
  refine ⟨answer, ok, meaning, ?_⟩
  rw [meaning, IsSubtype.iff_rule hr source_found target_found]
  -- components are declared, so that the check answers for them as well
  refine SubtypeRule.congr fun element component hs ht => ?_
  exact (isAssignable_eq_true hr closed (hr.component_published _ _ _ target_found ht)
    (hr.component_published _ _ _ source_found hs)).symm

/-- Two interfaces that extend each other, a class below the second, the array types of the class
and of the first interface, and a class apart. -/
def loop : Registry :=
  (((((initial.declared "" "Day" .interfaceType (·.implementing (.named ⟨12⟩))).declared "" "Night"
    .interfaceType (·.implementing (.named ⟨11⟩))).declared "" "Dusk" .classType
    (·.implementing (.named ⟨12⟩))).withArray ⟨13⟩).withArray ⟨11⟩).declared "" "Tide" .classType id

theorem loop_reachable : loop.Reachable := by
  have interfaces : ((initial.declared "" "Day" .interfaceType
      (·.implementing (.named ⟨12⟩))).declared "" "Night" .interfaceType
      (·.implementing (.named ⟨11⟩))).Reachable :=
    (Reachable.declared .refl _ _ _ _).declared _ _ _ _
  exact (((interfaces.declared _ _ _ _).withArray _).withArray _).declared _ _ _ _

/-- Arrays of the class are arrays of the first interface, two clauses above. For the class apart
the check goes round the cycle and says no. -/
theorem isAssignable_decides_loop :
    loop.Reachable ∧ loop.SupertypesPublished ∧
      Relation.TransGen loop.DeclaredSupertype ⟨11⟩ ⟨11⟩ ∧
      loop.isAssignable ⟨15⟩ ⟨14⟩ = .ok true ∧ loop.isAssignable ⟨16⟩ ⟨11⟩ = .ok false := by
  have closed : loop.SupertypesPublished := by decide +kernel
  have edge (s t : TypeId) (listed : t ∈ loop.supertypes s) : loop.DeclaredSupertype s t := listed
  have day_night := edge ⟨11⟩ ⟨12⟩ (by decide +kernel)
  have night_day := edge ⟨12⟩ ⟨11⟩ (by decide +kernel)
  have dusk_night := edge ⟨13⟩ ⟨12⟩ (by decide +kernel)
  have flavored (id : TypeId) (f : Flavor) (h : (loop.find? id).map (·.flavor) = some f) :
      ∃ d, loop.find? id = some d ∧ d.flavor = f := Option.map_eq_some_iff.mp h
  obtain ⟨day, day_found, day_flavor⟩ := flavored ⟨11⟩ .interfaceType (by decide +kernel)
  obtain ⟨dusk, dusk_found, dusk_flavor⟩ := flavored ⟨13⟩ .classType (by decide +kernel)
  obtain ⟨dusks, dusks_found, dusks_flavor⟩ := flavored ⟨14⟩ (.array ⟨13⟩) (by decide +kernel)
  obtain ⟨days, days_found, days_flavor⟩ := flavored ⟨15⟩ (.array ⟨11⟩) (by decide +kernel)
  have lower : loop.isAssignable ⟨11⟩ ⟨13⟩ = .ok true := by
    obtain ⟨answer, ok, -, rule⟩ := isAssignable_decides loop_reachable closed dusk_found day_found
    rw [ok, rule.mpr (.inr ⟨by rw [dusk_flavor]; rfl, by rw [day_flavor]; rfl,
      .inr (.inr ⟨by simp [dusk_flavor], by simp [day_flavor], .head dusk_night (.single night_day)⟩)⟩)]
  have arrays : loop.isAssignable ⟨15⟩ ⟨14⟩ = .ok true := by
    obtain ⟨answer, ok, -, rule⟩ :=
      isAssignable_decides loop_reachable closed dusks_found days_found
    rw [ok, rule.mpr (.inr ⟨by rw [dusks_flavor]; rfl, by rw [days_flavor]; rfl,
      .inr (.inl ⟨_, _, dusks_flavor, days_flavor, lower⟩)⟩)]
  exact ⟨loop_reachable, closed, .head day_night (.single night_day), arrays, by cbv⟩

end PropertyTables.Registry
