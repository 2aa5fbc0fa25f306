import PropertyTables.GenericType
import PropertyTables.Index
import Mathlib.Logic.Function.Basic

/-! # Substitutions

Bindings as functions from names to types, in which it does not matter where an entry stands.

* `GenericType.subst`: replaces each variable by its image; `GenericType.vars` lists the
  variables that occur, at any depth.
* `subst_subst`, `subst_typeVar`, `mem_vars_subst`: the laws of the two.
* `Bindings.value`: what bindings give each name. `instantiate_eq_subst` and the lemmas `value_*`
  turn the operations on bindings into operations on functions.
* `Assigns`: a function gives each parameter the value at its place. `Assigns.unique` says that
  there is one such function.
-/

namespace PropertyTables
set_option autoImplicit false

/-- What each variable name stands for. -/
abbrev Substitution := String → GenericType

/-- Nothing is bound: every variable is the root type. -/
def Substitution.unbound : Substitution := fun _ => .named .object

namespace GenericType

/-! ## Types as trees -/

/-- Induction over a type whose lists of parts are known element by element. -/
theorem induction_on_parts {P : GenericType → Prop} (named : ∀ id, P (.named id))
    (applied : ∀ raw args, (∀ t ∈ args, P t) → P (.applied raw args))
    (array : ∀ component, P component → P (.array component)) (typeVar : ∀ name, P (.typeVar name))
    (wildcard : ∀ upper lower, (∀ t ∈ upper, P t) → (∀ t ∈ lower, P t) → P (.wildcard upper lower))
    (t : GenericType) : P t :=
  @GenericType.rec P (fun ts => ∀ t ∈ ts, P t) named applied array typeVar wildcard (by simp)
    (fun _ _ head tail => List.forall_mem_cons.mpr ⟨head, tail⟩) t

mutual

/-- Replaces every variable by its image. -/
def subst (σ : Substitution) : GenericType → GenericType
  | named id => named id
  | applied raw args => applied raw (substAll σ args)
  | array component => array (subst σ component)
  | typeVar name => σ name
  | wildcard upper lower => wildcard (substAll σ upper) (substAll σ lower)

/-- `subst` on each type of a list. -/
def substAll (σ : Substitution) : List GenericType → List GenericType
  | [] => []
  | t :: ts => subst σ t :: substAll σ ts

end

mutual

/-- The variables that occur in a type. -/
def vars : GenericType → List String
  | named _ => []
  | applied _ args => varsAll args
  | array component => vars component
  | typeVar name => [name]
  | wildcard upper lower => varsAll upper ++ varsAll lower

/-- The variables that occur in some type of a list. -/
def varsAll : List GenericType → List String
  | [] => []
  | t :: ts => vars t ++ varsAll ts

end

theorem substAll_eq_map (σ : Substitution) (ts : List GenericType) :
    substAll σ ts = ts.map (subst σ) := by
  induction ts with
  | nil => rfl
  | cons t ts ih => rw [substAll, ih, List.map_cons]

theorem varsAll_eq_flatMap (ts : List GenericType) :
    varsAll ts = ts.flatMap vars := by
  induction ts with
  | nil => rfl
  | cons t ts ih => rw [varsAll, ih, List.flatMap_cons]

/-! ## Laws -/

theorem subst_subst (σ τ : Substitution) (t : GenericType) :
    (t.subst σ).subst τ = t.subst fun x => (σ x).subst τ := by
  induction t using induction_on_parts with
  | named id => rfl
  | applied raw args ih =>
    simp only [subst, substAll_eq_map, List.map_map]
    rw [List.map_congr_left fun t ht => (Function.comp_apply).trans (ih t ht)]
  | array component ih => simp only [subst, ih]
  | typeVar name => rfl
  | wildcard upper lower ihu ihl =>
    simp only [subst, substAll_eq_map, List.map_map]
    rw [List.map_congr_left fun t ht => (Function.comp_apply).trans (ihu t ht),
      List.map_congr_left fun t ht => (Function.comp_apply).trans (ihl t ht)]

theorem subst_typeVar (t : GenericType) : t.subst typeVar = t := by
  induction t using induction_on_parts with
  | named id => rfl
  | applied raw args ih => rw [subst, substAll_eq_map, List.map_congr_left ih, List.map_id']
  | array component ih => rw [subst, ih]
  | typeVar name => rfl
  | wildcard upper lower ihu ihl =>
    rw [subst, substAll_eq_map, substAll_eq_map, List.map_congr_left ihu, List.map_congr_left ihl,
      List.map_id', List.map_id']

private theorem mem_vars_map_subst {σ : Substitution} {ts : List GenericType} {x : String}
    (h : ∀ t ∈ ts, x ∈ (t.subst σ).vars ↔ ∃ y ∈ t.vars, x ∈ (σ y).vars) :
    x ∈ (ts.map (subst σ)).flatMap vars ↔
      ∃ y ∈ ts.flatMap vars, x ∈ (σ y).vars := by
  simp only [List.flatMap_map, List.mem_flatMap]
  constructor
  · rintro ⟨t, ht, hx⟩
    obtain ⟨y, hy, hxy⟩ := (h t ht).mp hx
    exact ⟨y, ⟨t, ht, hy⟩, hxy⟩
  · rintro ⟨y, ⟨t, ht, hy⟩, hxy⟩
    exact ⟨t, ht, (h t ht).mpr ⟨y, hy, hxy⟩⟩

theorem mem_vars_subst {σ : Substitution} {t : GenericType} {x : String} :
    x ∈ (t.subst σ).vars ↔ ∃ y ∈ t.vars, x ∈ (σ y).vars := by
  induction t using induction_on_parts with
  | named id => simp [subst, vars]
  | applied raw args ih =>
    simpa only [subst, vars, substAll_eq_map, varsAll_eq_flatMap] using
      mem_vars_map_subst ih
  | array component ih => simpa only [subst, vars] using ih
  | typeVar name => simp [subst, vars]
  | wildcard upper lower ihu ihl =>
    simp only [subst, vars, substAll_eq_map, varsAll_eq_flatMap, List.mem_append,
      mem_vars_map_subst ihu, mem_vars_map_subst ihl, or_and_right, exists_or]

end GenericType

/-! ## Bindings as functions -/

/-- The first bound, read with `σ`, or the root type. -/
def TypeParam.fallbackIn (σ : Substitution) (p : TypeParam) : GenericType :=
  match p.bounds with
  | [] => .named .object
  | bound :: _ => bound.subst σ

namespace Bindings

/-- What bindings give a name; the root type if they have no entry for it. -/
def value (env : Bindings) : Substitution := fun name => (env.lookup name).getD (.named .object)

theorem value_cons (name : String) (t : GenericType) (env : Bindings) :
    value ((name, t) :: env) = Function.update env.value name t := by
  funext x
  rw [value, Index.lookup_cons_eq, Function.update_apply]
  split <;> rfl

end Bindings

theorem GenericType.instantiate_eq_subst (env : Bindings) (t : GenericType) :
    t.instantiate env = t.subst env.value := by
  induction t using induction_on_parts with
  | named id => rfl
  | applied raw args ih =>
    rw [instantiate, subst, instantiateAll_eq_map, substAll_eq_map, List.map_congr_left ih]
  | array component ih => rw [instantiate, subst, ih]
  | typeVar name => rfl
  | wildcard upper lower ihu ihl =>
    rw [instantiate, subst, instantiateAll_eq_map, instantiateAll_eq_map, substAll_eq_map,
      substAll_eq_map, List.map_congr_left ihu, List.map_congr_left ihl]

theorem TypeParam.fallback_eq (env : Bindings) (p : TypeParam) :
    p.fallback env = p.fallbackIn env.value := by
  rw [fallback, fallbackIn]
  cases p.bounds with
  | nil => rfl
  | cons bound _ => exact GenericType.instantiate_eq_subst env bound

/-- Adds the fallbacks of `params` one after the other, each read with what stands before it. -/
def Substitution.extend (σ : Substitution) (params : List TypeParam) : Substitution :=
  params.foldl (fun σ p => Function.update σ p.name (p.fallbackIn σ)) σ

theorem Bindings.value_extend (env : Bindings) (params : List TypeParam) :
    (env.extend params).value = env.value.extend params := by
  induction params generalizing env with
  | nil => rfl
  | cons p ps ih =>
    show (Bindings.extend ((p.name, p.fallback env) :: env) ps).value =
      Substitution.extend (Function.update env.value p.name (p.fallbackIn env.value)) ps
    rw [ih, value_cons, TypeParam.fallback_eq]

/-! ## Parameters and the values at their places -/

/-- Each parameter stands for the value at its place, the last of two parameters of one name
counting, and any other name for the root type. -/
structure Assigns (params : List TypeParam) (values : List GenericType) (σ : Substitution) :
    Prop where
  at_place : ∀ (k : Nat) (p : TypeParam) (v : GenericType), params[k]? = some p →
    values[k]? = some v → (∀ (j : Nat) (q : TypeParam), k < j → params[j]? = some q →
      q.name ≠ p.name) → σ p.name = v
  elsewhere : ∀ x, (∀ p ∈ params, p.name ≠ x) → σ x = .named .object

/-- A name among the parameters has a last place there. -/
theorem exists_last_place {params : List TypeParam} {x : String} (h : ∃ p ∈ params, p.name = x) :
    ∃ (k : Nat) (p : TypeParam), params[k]? = some p ∧ p.name = x ∧
      ∀ (j : Nat) (q : TypeParam), k < j → params[j]? = some q → q.name ≠ x := by
  induction params with
  | nil => simp at h
  | cons p ps ih =>
    by_cases later : ∃ q ∈ ps, q.name = x
    · obtain ⟨k, q, at_k, same, last⟩ := ih later
      refine ⟨k + 1, q, by simpa using at_k, same, fun j e hj he => ?_⟩
      obtain ⟨i, rfl⟩ : ∃ i, j = i + 1 := ⟨j - 1, by omega⟩
      exact last i e (by omega) (by simpa using he)
    · have here : p.name = x := by simpa [later] using h
      refine ⟨0, p, rfl, here, fun j e hj he same => later ⟨e, ?_, same⟩⟩
      obtain ⟨i, rfl⟩ : ∃ i, j = i + 1 := ⟨j - 1, by omega⟩
      exact List.mem_of_getElem? (by simpa using he)

theorem Assigns.unique {params : List TypeParam} {values : List GenericType} {σ τ : Substitution}
    (hσ : Assigns params values σ) (hτ : Assigns params values τ)
    (same : values.length = params.length) : σ = τ := by
  funext x
  by_cases named : ∃ p ∈ params, p.name = x
  · obtain ⟨k, p, at_k, rfl, last⟩ := exists_last_place named
    obtain ⟨bound, -⟩ := List.getElem?_eq_some_iff.mp at_k
    have value := List.getElem?_eq_getElem (same ▸ bound : k < values.length)
    rw [hσ.at_place k p _ at_k value last, hτ.at_place k p _ at_k value last]
  · have off : ∀ p ∈ params, p.name ≠ x := fun p hp e => named ⟨p, hp, e⟩
    rw [hσ.elsewhere x off, hτ.elsewhere x off]

namespace Bindings

theorem ofArgs_cons (p : TypeParam) (ps : List TypeParam) (v : GenericType)
    (vs : List GenericType) : ofArgs (p :: ps) (v :: vs) = ofArgs ps vs ++ [(p.name, v)] := by
  simp [ofArgs]

theorem lookup_ofArgs_eq_none {params : List TypeParam} {x : String}
    (off : ∀ p ∈ params, p.name ≠ x) (values : List GenericType) :
    (ofArgs params values).lookup x = none := by
  rw [List.lookup_eq_none_iff]
  intro e he
  rw [ofArgs, List.mem_reverse] at he
  obtain ⟨p, hp, same⟩ := List.mem_map.mp (List.of_mem_zip he).1
  simpa [← same] using (off p hp).symm

theorem lookup_ofArgs {params : List TypeParam} {values : List GenericType} {k : Nat}
    {p : TypeParam} {v : GenericType} (hp : params[k]? = some p) (hv : values[k]? = some v)
    (last : ∀ (j : Nat) (q : TypeParam), k < j → params[j]? = some q → q.name ≠ p.name) :
    (ofArgs params values).lookup p.name = some v := by
  induction params generalizing values k with
  | nil => simp at hp
  | cons a ps ih =>
    obtain _ | ⟨b, vs⟩ := values
    · simp at hv
    rw [ofArgs_cons, List.lookup_append]
    cases k with
    | zero =>
      obtain rfl : a = p := by simpa using hp
      obtain rfl : b = v := by simpa using hv
      have off : ∀ q ∈ ps, q.name ≠ a.name := fun q hq => by
        obtain ⟨i, hi⟩ := List.getElem?_of_mem hq
        exact last (i + 1) q (Nat.succ_pos i) (by simpa using hi)
      simp [lookup_ofArgs_eq_none off]
    | succ k =>
      have later := ih (by simpa using hp) (by simpa using hv) fun j q hj hq =>
        last (j + 1) q (by omega) (by simpa using hq)
      rw [later, Option.some_or]

theorem ofArgs_assigns (params : List TypeParam) (values : List GenericType) :
    Assigns params values (ofArgs params values).value where
  at_place k p v hp hv last := by rw [value, lookup_ofArgs hp hv last, Option.getD_some]
  elsewhere x off := by rw [value, lookup_ofArgs_eq_none off, Option.getD_none]

theorem fallbacks_eq_ofArgs (params : List TypeParam) :
    fallbacks params = ofArgs params (params.map (TypeParam.fallbackIn .unbound)) := by
  rw [fallbacks, ofArgs, List.zip_map', funext (TypeParam.fallback_eq [])]
  rfl

theorem fallbacks_assigns (params : List TypeParam) :
    Assigns params (params.map (TypeParam.fallbackIn .unbound)) (fallbacks params).value := by
  rw [fallbacks_eq_ofArgs]
  exact ofArgs_assigns _ _

end Bindings

end PropertyTables
