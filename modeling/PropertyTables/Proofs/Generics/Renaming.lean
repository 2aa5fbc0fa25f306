import PropertyTables.Declaration
import PropertyTables.Proofs.Generics.Substitution
import Mathlib.Logic.Function.Basic

/-! # Renaming variables

* `GenericType.rename`, `Declaration.rename`: other names for the variables of a type, or of a whole
  declaration.
* `Bindings.rename`: the same for the variables that bindings are for. What these stand for has none
  of the names.
* `instantiate_rename`, `fallbacks_rename`, `extend_rename`, `ofArgs_rename`: where no two names
  become one, bindings move along with the names.
-/

namespace PropertyTables
set_option autoImplicit false

/-! ## Types -/

namespace GenericType
variable {ρ : String → String}

/-- Renames every variable. -/
def rename (ρ : String → String) (t : GenericType) : GenericType := t.subst fun x => typeVar (ρ x)

theorem raw?_rename (t : GenericType) : (t.rename ρ).raw? = t.raw? := by
  cases t <;> rfl

theorem args_rename (t : GenericType) : (t.rename ρ).args = t.args.map (rename ρ) := by
  cases t with
  | applied raw args => exact substAll_eq_map _ args
  | _ => rfl

theorem subst_rename (σ : Substitution) (t : GenericType) :
    (t.rename ρ).subst σ = t.subst (σ ∘ ρ) :=
  subst_subst _ _ t

theorem rename_id : rename id = id := funext subst_typeVar

end GenericType

/-! ## Declarations -/

def TypeParam.rename (ρ : String → String) (p : TypeParam) : TypeParam where
  name := ρ p.name
  bounds := p.bounds.map (GenericType.rename ρ)

def Method.rename (ρ : String → String) (m : Method) : Method where
  name := m.name
  declaring := m.declaring
  returns := m.returns.rename ρ
  params := m.params.map (GenericType.rename ρ)
  typeParams := m.typeParams.map (TypeParam.rename ρ)
  modifiers := m.modifiers
  body := m.body

def Field.rename (ρ : String → String) (f : Field) : Field where
  name := f.name
  declaring := f.declaring
  position := f.position
  type := f.type.rename ρ
  modifiers := f.modifiers
  initial := f.initial

def Constructor.rename (ρ : String → String) (c : Constructor) : Constructor where
  declaring := c.declaring
  params := c.params.map (GenericType.rename ρ)
  modifiers := c.modifiers
  body := c.body

def Members.rename {owner : TypeId} (ρ : String → String) (ms : Members owner) :
    Members owner where
  methods := ms.methods.map (Method.rename ρ)
  fields := ms.fields.map (Field.rename ρ)
  constructors := ms.constructors.map (Constructor.rename ρ)
  methods_declaring := List.forall_mem_map.mpr ms.methods_declaring
  fields_declaring := by
    intro i f h
    rw [List.getElem?_map] at h
    obtain ⟨g, at_i, rfl⟩ := Option.map_eq_some_iff.mp h
    exact ms.fields_declaring i g at_i
  constructors_declaring := List.forall_mem_map.mpr ms.constructors_declaring

def Declaration.rename (ρ : String → String) (d : Declaration) : Declaration where
  id := d.id
  space := d.space
  name := d.name
  flavor := d.flavor
  isAbstract := d.isAbstract
  isFinal := d.isFinal
  typeParams := d.typeParams.map (TypeParam.rename ρ)
  superclass := d.superclass.map (GenericType.rename ρ)
  interfaces := d.interfaces.map (GenericType.rename ρ)
  members := d.members.rename ρ
  component_lt := d.component_lt

theorem clauses_rename (ρ : String → String) (d : Declaration) :
    (d.rename ρ).clauses = d.clauses.map (GenericType.rename ρ) := by
  cases parent : d.superclass <;> simp [Declaration.clauses, Declaration.rename, parent]

/-! ## Bindings -/

/-- Renames the variables that bindings are for; what they stand for has none of these. -/
def Bindings.rename (ρ : String → String) (env : Bindings) : Bindings :=
  env.map fun e => (ρ e.1, e.2)

theorem Bindings.append_rename (ρ : String → String) (env later : Bindings) :
    rename ρ (env ++ later) = env.rename ρ ++ later.rename ρ :=
  List.map_append

section Scope
variable {ρ : String → String} (inj : ρ.Injective)
include inj

theorem Bindings.value_rename (env : Bindings) : (env.rename ρ).value ∘ ρ = env.value := by
  induction env with
  | nil => rfl
  | cons e env ih =>
    obtain ⟨name, t⟩ := e
    show Bindings.value ((ρ name, t) :: rename ρ env) ∘ ρ = _
    rw [value_cons, value_cons, ← ih, Function.update_comp_eq_of_injective _ inj]

theorem GenericType.instantiate_rename (env : Bindings) (t : GenericType) :
    (t.rename ρ).instantiate (env.rename ρ) = t.instantiate env := by
  rw [instantiate_eq_subst, subst_rename, Bindings.value_rename inj, instantiate_eq_subst]

theorem TypeParam.fallback_rename (env : Bindings) (p : TypeParam) :
    (p.rename ρ).fallback (env.rename ρ) = p.fallback env := by
  obtain ⟨name, bounds⟩ := p
  cases bounds with
  | nil => rfl
  | cons bound _ => exact GenericType.instantiate_rename inj env bound

theorem Bindings.fallbacks_rename (params : List TypeParam) :
    fallbacks (params.map (TypeParam.rename ρ)) = (fallbacks params).rename ρ := by
  rw [fallbacks, fallbacks, rename, List.map_reverse, List.map_map, List.map_map]
  refine congrArg List.reverse (List.map_congr_left fun p _ => ?_)
  exact congrArg (Prod.mk (ρ p.name)) (p.fallback_rename inj [])

theorem Bindings.extend_rename (env : Bindings) (params : List TypeParam) :
    (env.rename ρ).extend (params.map (TypeParam.rename ρ)) = (env.extend params).rename ρ := by
  induction params generalizing env with
  | nil => rfl
  | cons p ps ih =>
    show Bindings.extend ((ρ p.name, (p.rename ρ).fallback (env.rename ρ)) :: env.rename ρ) _ = _
    rw [p.fallback_rename inj]
    exact ih ((p.name, p.fallback env) :: env)

end Scope

theorem Bindings.ofArgs_rename (ρ : String → String) (params : List TypeParam)
    (args : List GenericType) :
    ofArgs (params.map (TypeParam.rename ρ)) args = (ofArgs params args).rename ρ := by
  have names : (params.map (TypeParam.rename ρ)).map (·.name) = (params.map (·.name)).map ρ := by
    rw [List.map_map, List.map_map]
    rfl
  rw [ofArgs, ofArgs, rename, names, List.zip_map_left, List.map_reverse]
  rfl

/-! ## Renamings that keep all names -/

theorem TypeParam.rename_id : rename id = id := by
  funext p
  simp only [rename, GenericType.rename_id, List.map_id, id]

theorem Method.rename_id : rename id = id := by
  funext m
  simp only [rename, GenericType.rename_id, TypeParam.rename_id, List.map_id, id]

theorem Field.rename_id : rename id = id := by
  funext f
  simp only [rename, GenericType.rename_id, id]

theorem Constructor.rename_id : rename id = id := by
  funext c
  simp only [rename, GenericType.rename_id, List.map_id, id]

theorem Members.rename_id {owner : TypeId} (ms : Members owner) : ms.rename id = ms := by
  simp only [rename, Method.rename_id, Field.rename_id, Constructor.rename_id, List.map_id]

theorem declaration_rename_id : Declaration.rename id = id := by
  funext d
  simp only [Declaration.rename, TypeParam.rename_id, GenericType.rename_id, Members.rename_id,
    List.map_id, Option.map_id, id]

end PropertyTables
