import PropertyTables.Generics.Erasure
import PropertyTables.Proofs.Generics.SupertypePath

/-! # What holds of resolved types

* `Resolves`: a property of declared types and a property of types without free variables that
  substitution turns the one into.
* `Registry.DeclaresOnly`: the types that declarations are written with have the first property.
* `Resolves.path`: then what stands for the variables along a supertype path has the second
  one, and so do the bindings in any owner, `Resolves.bindings`, those of a method on its own,
  `Resolves.ownBindings`, and the types of members, `Resolves.resolveReturn`,
  `Resolves.resolveParams` and `Resolves.resolveField`.
-/

namespace PropertyTables
set_option autoImplicit false

/-- Putting types that satisfy `Q` for the variables of one that satisfies `D` gives one that
satisfies `Q`, and the root type does so anyway. -/
structure Resolves (D Q : GenericType → Prop) : Prop where
  root : Q (.named .object)
  subst : ∀ (σ : Substitution) (t : GenericType), (∀ x, Q (σ x)) → D t → Q (t.subst σ)

/-- Whether the type arguments and the bounds that declarations are written with satisfy `D`. -/
structure Registry.DeclaresOnly (r : Registry) (D : GenericType → Prop) : Prop where
  args : ∀ id d, r.find? id = some d → ∀ clause ∈ d.clauses, ∀ arg ∈ clause.args, D arg
  bounds : ∀ id d, r.find? id = some d → ∀ p ∈ d.typeParams, ∀ bound ∈ p.bounds, D bound

variable {D Q : GenericType → Prop} {r : Registry} {owner declaring : TypeId}

theorem Registry.DeclaresOnly.typeParams (h : r.DeclaresOnly D) (id : TypeId) :
    ∀ p ∈ r.typeParams id, ∀ bound ∈ p.bounds, D bound := by
  rw [Registry.typeParams]
  cases found : r.find? id with
  | none => simp
  | some d => exact h.bounds id d found

namespace Resolves

/-! ## Substitutions -/

theorem fallbackIn (h : Resolves D Q) {σ : Substitution} (hσ : ∀ x, Q (σ x)) {p : TypeParam}
    (bounds : ∀ bound ∈ p.bounds, D bound) : Q (p.fallbackIn σ) := by
  rw [TypeParam.fallbackIn]
  cases written : p.bounds with
  | nil => exact h.root
  | cons bound _ => exact h.subst σ bound hσ (bounds bound (by simp [written]))

theorem fallbacks (h : Resolves D Q) {params : List TypeParam}
    (bounds : ∀ p ∈ params, ∀ bound ∈ p.bounds, D bound) :
    ∀ v ∈ params.map (TypeParam.fallbackIn .unbound), Q v := by
  intro v hv
  obtain ⟨p, hp, rfl⟩ := List.mem_map.mp hv
  exact h.fallbackIn (fun _ => h.root) (bounds p hp)

theorem extend (h : Resolves D Q) {σ : Substitution} (hσ : ∀ x, Q (σ x)) {params : List TypeParam}
    (bounds : ∀ p ∈ params, ∀ bound ∈ p.bounds, D bound) : ∀ x, Q (σ.extend params x) := by
  induction params generalizing σ with
  | nil => exact hσ
  | cons p ps ih =>
    have first := h.fallbackIn hσ (bounds p List.mem_cons_self)
    refine ih (fun x => ?_) fun q hq => bounds q (List.mem_cons_of_mem p hq)
    show Q (Function.update σ p.name (p.fallbackIn σ) x)
    rw [Function.update_apply]
    split
    · exact first
    · exact hσ x

theorem assigns (h : Resolves D Q) {params : List TypeParam} {values : List GenericType}
    {σ : Substitution} (assigned : Assigns params values σ) (same : values.length = params.length)
    (all : ∀ v ∈ values, Q v) : ∀ x, Q (σ x) := by
  intro x
  by_cases named : ∃ p ∈ params, p.name = x
  · obtain ⟨k, p, at_k, rfl, last⟩ := exists_last_place named
    obtain ⟨bound, -⟩ := List.getElem?_eq_some_iff.mp at_k
    have value := List.getElem?_eq_getElem (same ▸ bound : k < values.length)
    rw [assigned.at_place k p _ at_k value last]
    exact all _ (List.getElem_mem _)
  · rw [assigned.elsewhere x fun p hp e => named ⟨p, hp, e⟩]
    exact h.root

/-! ## Paths and bindings -/

theorem passedValues (h : Resolves D Q) (written : r.DeclaresOnly D) {σ : Substitution}
    (hσ : ∀ x, Q (σ x)) {id : TypeId} {d : Declaration} (found : r.find? id = some d)
    {clause : GenericType} (listed : clause ∈ d.clauses) (parent : TypeId) :
    ∀ v ∈ r.passedValues σ clause parent, Q v := by
  unfold Registry.passedValues
  split
  · intro v hv
    obtain ⟨arg, here, rfl⟩ := List.mem_map.mp hv
    exact h.subst σ arg hσ (written.args id d found clause listed arg here)
  · exact h.fallbacks (written.typeParams parent)

theorem path (h : Resolves D Q) (written : r.DeclaresOnly D) {path : List GenericType} {t : TypeId}
    {σ : Substitution} (along : r.SupertypePath owner path t σ) : ∀ x, Q (σ x) := by
  induction along with
  | start own => exact h.assigns own (List.length_map _) (h.fallbacks (written.typeParams owner))
  | step _ found listed _ passed ih =>
    exact h.assigns passed (Registry.length_passedValues _ _ _ _)
      (h.passedValues written ih found listed _)

theorem bindings (h : Resolves D Q) (written : r.DeclaresOnly D) {env : Bindings}
    (done : r.bindings owner declaring = .ok env) : ∀ x, Q (env.value x) := by
  rcases Registry.bindings_cases done with ⟨path, along⟩ | ⟨d, found, rfl⟩
  · exact h.path written along
  · exact h.assigns (Bindings.fallbacks_assigns _) (List.length_map _)
      (h.fallbacks (written.bounds declaring d found))

variable {m : Method}

theorem ownBindings (h : Resolves D Q) (written : r.DeclaresOnly D)
    (bounds : ∀ p ∈ m.typeParams, ∀ bound ∈ p.bounds, D bound) {env : Bindings}
    (done : m.ownBindings r = .ok env) : ∀ x, Q (env.value x) := by
  obtain ⟨d, found, rfl⟩ := bind_pure_eq_ok.mp done
  have own := h.assigns (Bindings.fallbacks_assigns m.typeParams) (List.length_map _)
    (h.fallbacks bounds)
  have outer := h.assigns (Bindings.fallbacks_assigns d.typeParams) (List.length_map _)
    (h.fallbacks (written.bounds m.declaring d (Registry.find_eq_ok.mp found)))
  intro x
  have here := own x
  have there := outer x
  rw [Bindings.value] at here there ⊢
  rw [List.lookup_append]
  cases named : (Bindings.fallbacks m.typeParams).lookup x with
  | some t =>
    rw [named] at here
    exact here
  | none => exact there

/-! ## Member types -/

theorem resolveReturn (h : Resolves D Q) (written : r.DeclaresOnly D) (returns : D m.returns)
    (bounds : ∀ p ∈ m.typeParams, ∀ bound ∈ p.bounds, D bound) {t : GenericType}
    (done : r.resolveReturn m owner = .ok t) : Q t := by
  obtain ⟨env, ok, rfl⟩ := Registry.resolveReturn_eq_ok.mp done
  exact h.subst _ m.returns (h.extend (h.bindings written ok) bounds) returns

theorem resolveParams (h : Resolves D Q) (written : r.DeclaresOnly D) (params : ∀ t ∈ m.params, D t)
    (bounds : ∀ p ∈ m.typeParams, ∀ bound ∈ p.bounds, D bound) {ts : List GenericType}
    (done : r.resolveParams m owner = .ok ts) : ∀ t ∈ ts, Q t := by
  obtain ⟨env, ok, rfl⟩ := Registry.resolveParams_eq_ok.mp done
  intro t ht
  obtain ⟨param, here, rfl⟩ := List.mem_map.mp ht
  exact h.subst _ param (h.extend (h.bindings written ok) bounds) (params param here)

theorem resolveField (h : Resolves D Q) (written : r.DeclaresOnly D) {f : Field} (type : D f.type)
    {t : GenericType} (done : r.resolveField f owner = .ok t) : Q t := by
  obtain ⟨env, ok, rfl⟩ := Registry.resolveField_eq_ok.mp done
  exact h.subst _ f.type (h.bindings written ok) type

end Resolves

end PropertyTables
