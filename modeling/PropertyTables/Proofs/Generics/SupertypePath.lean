import PropertyTables.Generics.Resolution
import PropertyTables.Proofs.Generics.Substitution
import PropertyTables.Proofs.Hierarchy.Supertypes
import PropertyTables.Proofs.Registry.Evaluation
import Mathlib

/-! # Type arguments along supertype paths

* `Registry.SupertypePath`: a path through supertype clauses, with what the variables of the type at
  its end stand for. Each clause hands on its arguments, read with what stands below it.
* `boundWalk_path`: every node of the walk behind `Registry.bindings` lies at the end of a path, and
  carries what that path makes of its variables.
* `bindings_eq_ok`: where all supertypes are declared, a declaring type above the owner is found.
* `resolve_along_path`: the types of its members as seen from the owner.
-/

namespace PropertyTables
set_option autoImplicit false

namespace Registry

/-! ## Paths -/

/-- The values that a clause gives the parameters of the type it names: its arguments if there are
as many as parameters, and any at all, or the fallbacks. -/
def passedValues (r : Registry) (σ : Substitution) (clause : GenericType) (parent : TypeId) :
    List GenericType :=
  if clause.args ≠ [] ∧ clause.args.length = (r.typeParams parent).length then
    clause.args.map (GenericType.subst σ)
  else (r.typeParams parent).map (TypeParam.fallbackIn .unbound)

/-- A path from `owner` to a type, as the list of the clauses that it takes, the last one first, and
what the variables of that type stand for. -/
inductive SupertypePath (r : Registry) (owner : TypeId) :
    List GenericType → TypeId → Substitution → Prop
  | start {σ : Substitution} (own : Assigns (r.typeParams owner)
      ((r.typeParams owner).map (TypeParam.fallbackIn .unbound)) σ) :
      SupertypePath r owner [] owner σ
  | step {path : List GenericType} {child parent : TypeId} {σ τ : Substitution} {d : Declaration}
      {clause : GenericType} (below : SupertypePath r owner path child σ)
      (found : r.find? child = some d) (written : clause ∈ d.clauses)
      (names : clause.raw? = some parent)
      (passed : Assigns (r.typeParams parent) (r.passedValues σ clause parent) τ) :
      SupertypePath r owner (clause :: path) parent τ

variable {r : Registry} {owner declaring : TypeId}

theorem length_passedValues (r : Registry) (σ : Substitution) (clause : GenericType)
    (parent : TypeId) : (r.passedValues σ clause parent).length = (r.typeParams parent).length := by
  unfold passedValues
  split
  · rename_i fits
    rw [List.length_map, fits.2]
  · rw [List.length_map]

/-- The clauses of a path determine where it ends and what stands there. -/
theorem SupertypePath.unique {path : List GenericType} {a b : TypeId} {σ τ : Substitution}
    (hσ : r.SupertypePath owner path a σ) (hτ : r.SupertypePath owner path b τ) :
    a = b ∧ σ = τ := by
  induction hσ generalizing b τ with
  | start own =>
    cases hτ with
    | start own' => exact ⟨rfl, own.unique own' (List.length_map _)⟩
  | step below found written names passed ih =>
    cases hτ with
    | step below' found' written' names' passed' =>
      obtain ⟨rfl, rfl⟩ := ih below'
      obtain rfl := Option.some.inj (names.symm.trans names')
      exact ⟨rfl, passed.unique passed' (length_passedValues _ _ _ _)⟩

/-! ## The walk with bindings follows paths -/

theorem clauseBindings_assigns (r : Registry) (env : Bindings) (clause : GenericType)
    (parent : TypeId) :
    Assigns (r.typeParams parent) (r.passedValues env.value clause parent)
      (r.clauseBindings env parent clause.args).value := by
  by_cases fits : clause.args ≠ [] ∧ clause.args.length = (r.typeParams parent).length
  · simp only [clauseBindings, passedValues, if_pos fits, GenericType.instantiateAll_eq_map,
      funext (GenericType.instantiate_eq_subst env)]
    exact Bindings.ofArgs_assigns _ _
  · simp only [clauseBindings, passedValues, if_neg fits]
    exact Bindings.fallbacks_assigns _

theorem mem_boundSupertypes {b s : BoundType} :
    s ∈ r.boundSupertypes b ↔ ∃ d, r.find? b.id = some d ∧ ∃ clause ∈ d.clauses,
      clause.raw? = some s.id ∧ s.env = r.clauseBindings b.env s.id clause.args := by
  rw [boundSupertypes]
  cases found : r.find? b.id with
  | none => simp
  | some d =>
    obtain ⟨id, env⟩ := s
    simp only [Option.elim_some, List.mem_filterMap, boundSupertype?, Option.map_eq_some_iff,
      BoundType.mk.injEq, Option.some.injEq, exists_eq_left']
    constructor
    · rintro ⟨clause, written, raw, names, rfl, same⟩
      exact ⟨clause, written, names, same.symm⟩
    · rintro ⟨clause, written, names, rfl⟩
      exact ⟨clause, written, id, names, rfl, rfl⟩

/-- The nodes that `bindings` looks through. -/
def boundWalk (r : Registry) (owner : TypeId) : List BoundType :=
  preorder (·.id) r.boundSupertypes r.size [] [r.unbound owner]

theorem boundWalk_path :
    ∀ b ∈ r.boundWalk owner, ∃ path, r.SupertypePath owner path b.id b.env.value := by
  refine preorder_forall ?_ ?_
  · intro b hb
    rw [List.mem_singleton.mp hb]
    exact ⟨[], .start (Bindings.fallbacks_assigns _)⟩
  · rintro b ⟨path, below⟩ s hs
    obtain ⟨d, found, clause, written, names, env⟩ := mem_boundSupertypes.mp hs
    refine ⟨clause :: path, .step below found written names ?_⟩
    rw [env]
    exact clauseBindings_assigns r b.env clause s.id

/-- The types of the nodes are those above the owner, whatever bindings they carry. -/
theorem mem_boundWalk_ids {t : TypeId} :
    t ∈ (r.boundWalk owner).map (·.id) ↔ Relation.ReflTransGen r.DeclaredSupertype owner t := by
  -- without its bindings, the walk is one over identities along the same edges
  let targets (s : TypeId) : List TypeId :=
    (r.find? s).elim [] fun d => d.clauses.filterMap (·.raw?)
  have edges (s t : TypeId) : t ∈ targets s ↔ r.DeclaredSupertype s t := by
    rw [declaredSupertype_iff]
    cases found : r.find? s <;> simp [targets, found]
  have successors (b : BoundType) : targets b.id = (r.boundSupertypes b).map (·.id) := by
    cases found : r.find? b.id with
    | none => simp [targets, boundSupertypes, found]
    | some d =>
      simp only [targets, boundSupertypes, found, Option.elim_some, List.map_filterMap]
      congr 1
      funext clause
      rw [boundSupertype?]
      cases clause.raw? <;> rfl
  have ids : (r.boundWalk owner).map (·.id) = preorder (fun t => t) targets r.size [] [owner] :=
    map_preorder (fun t => t) r.size (fun b : BoundType => b.id) (fun _ => rfl) successors []
      [r.unbound owner]
  rw [ids, mem_preorder_iff fun s t edge => ((edges s t).mp edge).lt_size]
  simp only [edges, List.mem_singleton, exists_eq_left]

/-! ## Bindings -/

theorem firstBindings_eq_ok {nodes : List BoundType} (h : ∀ b ∈ nodes, r.Published b.id) :
    r.firstBindings declaring nodes =
      .ok ((nodes.find? (·.id = declaring)).map (·.env)) := by
  induction nodes with
  | nil => rfl
  | cons b rest ih =>
    obtain ⟨d, found⟩ := published_iff.mp (h b List.mem_cons_self)
    rw [firstBindings, find_eq_ok.mpr found, List.find?_cons]
    by_cases here : b.id = declaring
    · simp [here]
    · have later := ih fun s hs => h s (List.mem_cons_of_mem _ hs)
      simp [here, later]

theorem bindings_eq_ok (closed : r.SupertypesPublished) (ho : r.Published owner)
    (above : Relation.ReflTransGen r.DeclaredSupertype owner declaring) :
    ∃ env path, r.bindings owner declaring = .ok env ∧
      r.SupertypePath owner path declaring env.value := by
  have declared : ∀ b ∈ r.boundWalk owner, r.Published b.id := fun b hb =>
    closed.of_path ho (mem_boundWalk_ids.mp (List.mem_map_of_mem hb))
  obtain ⟨b, hb, same⟩ := List.mem_map.mp (mem_boundWalk_ids.mpr above)
  obtain ⟨c, found⟩ : ∃ c, (r.boundWalk owner).find? (·.id = declaring) = some c := by
    rw [← Option.isSome_iff_exists, List.find?_isSome]
    exact ⟨b, hb, by simpa using same⟩
  obtain ⟨path, hc⟩ := boundWalk_path c (List.mem_of_find?_eq_some found)
  have at_end : c.id = declaring := by simpa using List.find?_some found
  refine ⟨c.env, path, ?_, at_end ▸ hc⟩
  have first : r.firstBindings declaring (r.boundWalk owner) = .ok (some c.env) := by
    rw [firstBindings_eq_ok declared, found, Option.map_some]
  rw [bindings, ← boundWalk, first]
  rfl

/-- Where all types are declared there are bindings, whether or not the owner is below the declaring
type. -/
theorem bindings_answers (closed : r.SupertypesPublished) (ho : r.Published owner)
    (hd : r.Published declaring) : ∃ env, r.bindings owner declaring = .ok env := by
  have declared : ∀ b ∈ r.boundWalk owner, r.Published b.id := fun b hb =>
    closed.of_path ho (mem_boundWalk_ids.mp (List.mem_map_of_mem hb))
  rw [bindings, ← boundWalk, firstBindings_eq_ok declared]
  cases (r.boundWalk owner).find? (·.id = declaring) with
  | some b => exact ⟨b.env, rfl⟩
  | none =>
    obtain ⟨d, found⟩ := published_iff.mp hd
    exact ⟨.fallbacks d.typeParams, by rw [find_eq_ok.mpr found]; rfl⟩

theorem mem_of_firstBindings {nodes : List BoundType} {env : Bindings}
    (h : r.firstBindings declaring nodes = .ok (some env)) :
    ∃ b ∈ nodes, b.id = declaring ∧ b.env = env := by
  induction nodes with
  | nil => cases h
  | cons b rest ih =>
    rw [firstBindings] at h
    split at h
    · cases h
    · split at h
      · rename_i here
        cases h
        exact ⟨b, List.mem_cons_self, here, rfl⟩
      · obtain ⟨c, hc, found⟩ := ih h
        exact ⟨c, List.mem_cons_of_mem _ hc, found⟩

/-- Bindings come from a path or, where there is none, from the declaring type alone. -/
theorem bindings_cases {env : Bindings} (h : r.bindings owner declaring = .ok env) :
    (∃ path, r.SupertypePath owner path declaring env.value) ∨
      ∃ d, r.find? declaring = some d ∧ env = .fallbacks d.typeParams := by
  obtain ⟨found, first, h⟩ := bind_eq_ok.mp h
  cases found with
  | some found =>
    cases h
    obtain ⟨b, hb, rfl, rfl⟩ := mem_of_firstBindings first
    exact .inl (boundWalk_path b hb)
  | none =>
    obtain ⟨d, declared, h⟩ := bind_eq_ok.mp h
    cases h
    exact .inr ⟨d, find_eq_ok.mp declared, rfl⟩

/-! ## Member types -/

theorem methodBindings_eq_ok {m : Method} {inner : Bindings} :
    r.methodBindings m owner = .ok inner ↔
      ∃ env, r.bindings owner m.declaring = .ok env ∧ env.extend m.typeParams = inner := by
  rw [methodBindings, bind_pure_eq_ok]

theorem resolveReturn_eq_ok {m : Method} {t : GenericType} :
    r.resolveReturn m owner = .ok t ↔ ∃ env, r.bindings owner m.declaring = .ok env ∧
      m.returns.subst (env.value.extend m.typeParams) = t := by
  rw [resolveReturn, bind_pure_eq_ok]
  simp only [methodBindings_eq_ok, GenericType.instantiate_eq_subst, exists_exists_and_eq_and,
    Bindings.value_extend]

theorem resolveParams_eq_ok {m : Method} {ts : List GenericType} :
    r.resolveParams m owner = .ok ts ↔ ∃ env, r.bindings owner m.declaring = .ok env ∧
      m.params.map (GenericType.subst (env.value.extend m.typeParams)) = ts := by
  rw [resolveParams, bind_pure_eq_ok]
  simp only [methodBindings_eq_ok, funext (GenericType.instantiate_eq_subst _),
    exists_exists_and_eq_and, Bindings.value_extend]

theorem resolveField_eq_ok {f : Field} {t : GenericType} :
    r.resolveField f owner = .ok t ↔ ∃ env, r.bindings owner f.declaring = .ok env ∧
      f.type.subst env.value = t := by
  rw [resolveField, bind_pure_eq_ok]
  simp only [GenericType.instantiate_eq_subst]

/-- The members of a declaration as seen from `owner` have their declared types with `σ` put for the
variables of the declaring type; the variables of a method hide these. -/
structure SeesThrough (r : Registry) (owner : TypeId) (d : Declaration) (σ : Substitution) :
    Prop where
  returns : ∀ m ∈ d.methods,
    r.resolveReturn m owner = .ok (m.returns.subst (σ.extend m.typeParams))
  params : ∀ m ∈ d.methods,
    r.resolveParams m owner = .ok (m.params.map (GenericType.subst (σ.extend m.typeParams)))
  fields : ∀ f ∈ d.fields, r.resolveField f owner = .ok (f.type.subst σ)

theorem declaring_of_mem_methods {d : Declaration} {m : Method} (h : m ∈ d.methods) :
    m.declaring = d.id :=
  d.members.methods_declaring m h

theorem declaring_of_mem_fields {d : Declaration} {f : Field} (h : f ∈ d.fields) :
    f.declaring = d.id := by
  obtain ⟨i, at_i⟩ := List.getElem?_of_mem h
  exact (d.members.fields_declaring i f at_i).1

theorem seesThrough_of_bindings {d : Declaration} {env : Bindings}
    (h : r.bindings owner d.id = .ok env) : r.SeesThrough owner d env.value where
  returns _ hm := resolveReturn_eq_ok.mpr ⟨env, declaring_of_mem_methods hm ▸ h, rfl⟩
  params _ hm := resolveParams_eq_ok.mpr ⟨env, declaring_of_mem_methods hm ▸ h, rfl⟩
  fields _ hf := resolveField_eq_ok.mpr ⟨env, declaring_of_mem_fields hf ▸ h, rfl⟩

theorem published_of_path (hd : r.Published declaring)
    (above : Relation.ReflTransGen r.DeclaredSupertype owner declaring) : r.Published owner := by
  rcases above.cases_head with rfl | ⟨s, edge, -⟩
  · exact hd
  · obtain ⟨d, found, -⟩ := declaredSupertype_iff.mp edge
    exact .of_find? found

/-- What an owner sees of the members that a type above it declares follows a path from the owner to
that type; if there is one path only, it follows that one. -/
theorem resolve_along_path (closed : r.SupertypesPublished) {d : Declaration}
    (found : r.find? declaring = some d)
    (above : Relation.ReflTransGen r.DeclaredSupertype owner declaring) :
    (∃ path σ, r.SupertypePath owner path declaring σ ∧ r.SeesThrough owner d σ) ∧
    ∀ path σ, r.SupertypePath owner path declaring σ →
      (∀ other τ, r.SupertypePath owner other declaring τ → other = path) →
      r.SeesThrough owner d σ := by
  have ho := published_of_path (.of_find? found) above
  obtain ⟨env, taken, ok, through⟩ := bindings_eq_ok closed ho above
  have sees : r.SeesThrough owner d env.value :=
    seesThrough_of_bindings ((id_of_find? found).symm ▸ ok)
  refine ⟨⟨taken, env.value, through, sees⟩, fun path σ h only => ?_⟩
  obtain rfl := only taken env.value through
  obtain ⟨-, rfl⟩ := h.unique through
  exact sees

/-- An interface of two variables, a class that implements it with its own two swapped, and a class
that extends that one with arguments. -/
def pairs : Registry :=
  ((initial.declared "" "Pair" .interfaceType fun d =>
      ((d.withTypeParam ⟨"A", []⟩).withTypeParam ⟨"B", []⟩).getter "getFirst"
        (.typeVar "A")).declared "" "Swapped" .classType fun d =>
      ((d.withTypeParam ⟨"B", []⟩).withTypeParam ⟨"A", []⟩).implementing
        (.applied ⟨11⟩ [.typeVar "A", .array (.typeVar "B")])).declared "" "Named" .classType
    fun d => d.extending (.applied ⟨12⟩ [.named .object, .named .string])

/-- The only argument of a getter's type comes from two clauses up, under other names. -/
theorem resolve_along_path_pairs :
    pairs.SupertypesPublished ∧ ∃ d, pairs.find? ⟨11⟩ = some d ∧
      Relation.ReflTransGen pairs.DeclaredSupertype ⟨13⟩ ⟨11⟩ ∧ ∃ m ∈ d.methods, ∃ path σ,
        pairs.SupertypePath ⟨13⟩ path ⟨11⟩ σ ∧
        pairs.resolveReturn m ⟨13⟩ = .ok (m.returns.subst (σ.extend m.typeParams)) ∧
        pairs.resolveReturn m ⟨13⟩ = .ok (.named .string) := by
  have closed : pairs.SupertypesPublished := by decide +kernel
  have edges : pairs.DeclaredSupertype ⟨13⟩ ⟨12⟩ ∧ pairs.DeclaredSupertype ⟨12⟩ ⟨11⟩ := by
    unfold DeclaredSupertype
    decide +kernel
  have above : Relation.ReflTransGen pairs.DeclaredSupertype ⟨13⟩ ⟨11⟩ :=
    (Relation.ReflTransGen.single edges.1).tail edges.2
  have getter : ∃ d m, pairs.find? ⟨11⟩ = some d ∧ d.methods = [m] ∧
      pairs.resolveReturn m ⟨13⟩ = .ok (.named .string) := ⟨_, _, rfl, rfl, by cbv⟩
  obtain ⟨d, m, found, only, text⟩ := getter
  obtain ⟨⟨path, σ, through, sees⟩, -⟩ := resolve_along_path closed found above
  have member : m ∈ d.methods := only ▸ List.mem_singleton_self m
  exact ⟨closed, d, found, above, m, member, path, σ, through, sees.returns m member, text⟩

end Registry

end PropertyTables
