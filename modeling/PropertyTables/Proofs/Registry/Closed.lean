import PropertyTables.Proofs.Generics.ResolvedTypes
import PropertyTables.Proofs.Registry.Permanence

/-! # Closed registries

* `GenericType.ids`, `Declaration.ids`: the identities that a type or a declaration mentions.
* `Registry.Covers`: identities that are all declared. `Registry.Closed`: all that declarations
  mention are.
* `Interns.appends`: interning puts array types behind all others and does nothing else.
* `Sealed.interns`: it leaves a closed registry closed.
* `Sealed.resolves`: types that are resolved in a closed registry mention declared types only.
-/

namespace PropertyTables
set_option autoImplicit false

/-! ## The identities that occur -/

namespace GenericType

mutual

/-- The identities that occur in a type. -/
def ids : GenericType → List TypeId
  | named id => [id]
  | applied raw args => raw :: idsAll args
  | array component => ids component
  | typeVar _ => []
  | wildcard upper lower => idsAll upper ++ idsAll lower

/-- The identities that occur in some type of a list. -/
def idsAll : List GenericType → List TypeId
  | [] => []
  | t :: ts => ids t ++ idsAll ts

end

theorem idsAll_eq_flatMap (ts : List GenericType) : idsAll ts = ts.flatMap ids := by
  induction ts with
  | nil => rfl
  | cons t ts ih => rw [idsAll, ih, List.flatMap_cons]

theorem raw?_mem_ids {t : GenericType} {id : TypeId} (h : t.raw? = some id) : id ∈ t.ids := by
  cases t <;> simp_all [raw?, ids]

theorem ids_of_mem_args {t arg : GenericType} (h : arg ∈ t.args) :
    ∀ id ∈ arg.ids, id ∈ t.ids := by
  cases t with
  | applied raw args =>
    intro id occurs
    rw [ids, idsAll_eq_flatMap]
    exact List.mem_cons_of_mem raw (List.mem_flatMap.mpr ⟨arg, h, occurs⟩)
  | _ => cases h

/-- What holds of the identities in a type and in the types that are put for its variables holds of
those in the result. -/
theorem forall_ids_subst {P : TypeId → Prop} {σ : Substitution} (hσ : ∀ x, ∀ id ∈ (σ x).ids, P id)
    {t : GenericType} (ht : ∀ id ∈ t.ids, P id) : ∀ id ∈ (t.subst σ).ids, P id := by
  have parts {ts : List GenericType}
      (ih : ∀ t ∈ ts, (∀ id ∈ t.ids, P id) → ∀ id ∈ (t.subst σ).ids, P id)
      (h : ∀ id ∈ idsAll ts, P id) : ∀ id ∈ idsAll (substAll σ ts), P id := by
    rw [idsAll_eq_flatMap] at h
    rw [idsAll_eq_flatMap, substAll_eq_map]
    intro id occurs
    obtain ⟨_, there, occurs⟩ := List.mem_flatMap.mp occurs
    obtain ⟨t, member, rfl⟩ := List.mem_map.mp there
    exact ih t member (fun id occurs => h id (List.mem_flatMap.mpr ⟨t, member, occurs⟩)) id occurs
  induction t using GenericType.induction_on_parts with
  | named id => exact ht
  | applied raw args ih =>
    rw [ids, List.forall_mem_cons] at ht
    rw [subst, ids, List.forall_mem_cons]
    exact ⟨ht.1, parts ih ht.2⟩
  | array component ih => exact ih ht
  | typeVar name => exact hσ name
  | wildcard upper lower ihu ihl =>
    rw [ids, List.forall_mem_append] at ht
    rw [subst, ids, List.forall_mem_append]
    exact ⟨parts ihu ht.1, parts ihl ht.2⟩

end GenericType

def TypeParam.ids (p : TypeParam) : List TypeId := p.bounds.flatMap (·.ids)

def Method.ids (m : Method) : List TypeId :=
  m.declaring :: (m.returns.ids ++ m.params.flatMap (·.ids) ++ m.typeParams.flatMap (·.ids))

def Field.ids (f : Field) : List TypeId := f.declaring :: f.type.ids

def Constructor.ids (c : Constructor) : List TypeId := c.declaring :: c.params.flatMap (·.ids)

def Flavor.ids : Flavor → List TypeId
  | array component => [component]
  | _ => []

/-- The identities that occur in a declaration: in its supertypes, the bounds of its parameters, the
types of its members, or as the component of an array type. -/
def Declaration.ids (d : Declaration) : List TypeId :=
  d.clauses.flatMap (·.ids) ++ d.typeParams.flatMap (·.ids) ++ d.methods.flatMap (·.ids) ++
    d.fields.flatMap (·.ids) ++ d.constructors.flatMap (·.ids) ++ d.flavor.ids

namespace Registry
variable {r grown : Registry}

/-! ## Closed registries -/

/-- Whether all of some identities are declared. -/
def Covers (r : Registry) (ids : List TypeId) : Prop := ∀ id ∈ ids, r.Published id

theorem covers_nil (r : Registry) : r.Covers [] := by simp [Covers]

theorem covers_append {as bs : List TypeId} : r.Covers (as ++ bs) ↔ r.Covers as ∧ r.Covers bs :=
  List.forall_mem_append

theorem covers_cons {id : TypeId} {ids : List TypeId} :
    r.Covers (id :: ids) ↔ r.Published id ∧ r.Covers ids :=
  List.forall_mem_cons

theorem covers_flatMap {α : Type} {l : List α} {ids : α → List TypeId} :
    r.Covers (l.flatMap ids) ↔ ∀ a ∈ l, r.Covers (ids a) := by
  simp only [Covers, List.mem_flatMap]
  constructor
  · intro h a ha id occurs
    exact h id ⟨a, ha, occurs⟩
  · rintro h id ⟨a, ha, occurs⟩
    exact h a ha id occurs

theorem Covers.extends {ids : List TypeId} (h : r.Covers ids) (extended : r.Extends grown) :
    grown.Covers ids :=
  fun id occurs => extended.published (h id occurs)

theorem Covers.interns {ids : List TypeId} (h : r.Covers ids) (interned : r.Interns grown) :
    grown.Covers ids :=
  h.extends interned.growsTo.declared

/-- Whether every identity that occurs in a declaration is declared. -/
def Closed (r : Registry) : Prop := ∀ id d, r.find? id = some d → r.Covers d.ids

/-- What all declarations mention is what finitely many do. -/
theorem closed_iff : r.Closed ↔
    ∀ i < r.size, ∀ id ∈ (r.find? ⟨i⟩).elim [] Declaration.ids, r.Published id := by
  constructor
  · intro h i _
    cases found : r.find? ⟨i⟩ with
    | none => simp
    | some d => exact h ⟨i⟩ d found
  · intro h id d found
    have all := h id.index (lt_size_of_find? found)
    rwa [found] at all

instance (r : Registry) : Decidable r.Closed := decidable_of_iff _ closed_iff.symm

namespace Closed
variable {id : TypeId} {d : Declaration}

theorem clauses (h : r.Closed) (found : r.find? id = some d) :
    ∀ clause ∈ d.clauses, r.Covers clause.ids := by
  have all := h id d found
  simp only [Declaration.ids, covers_append, covers_flatMap] at all
  exact all.1.1.1.1.1

theorem typeParams (h : r.Closed) (found : r.find? id = some d) :
    ∀ p ∈ d.typeParams, ∀ bound ∈ p.bounds, r.Covers bound.ids := by
  have all := h id d found
  simp only [Declaration.ids, covers_append, covers_flatMap] at all
  exact fun p hp => covers_flatMap.mp (all.1.1.1.1.2 p hp)

theorem methods (h : r.Closed) (found : r.find? id = some d) : ∀ m ∈ d.methods, r.Covers m.ids := by
  have all := h id d found
  simp only [Declaration.ids, covers_append, covers_flatMap] at all
  exact all.1.1.1.2

theorem fields (h : r.Closed) (found : r.find? id = some d) : ∀ f ∈ d.fields, r.Covers f.ids := by
  have all := h id d found
  simp only [Declaration.ids, covers_append, covers_flatMap] at all
  exact all.1.1.2

theorem constructors (h : r.Closed) (found : r.find? id = some d) :
    ∀ c ∈ d.constructors, r.Covers c.ids := by
  have all := h id d found
  simp only [Declaration.ids, covers_append, covers_flatMap] at all
  exact all.1.2

theorem superclass (h : r.Closed) (found : r.find? id = some d) {parent : TypeId}
    (named : d.superclass? = some parent) : r.Published parent := by
  obtain ⟨clause, written, names⟩ := Option.bind_eq_some_iff.mp named
  have listed : clause ∈ d.clauses := by simp [Declaration.clauses, written]
  exact h.clauses found clause listed parent (GenericType.raw?_mem_ids names)

theorem supertypesPublished (h : r.Closed) : r.SupertypesPublished := by
  intro s t edge
  obtain ⟨d, found, clause, written, names⟩ := declaredSupertype_iff.mp edge
  exact h.clauses found clause written t (GenericType.raw?_mem_ids names)

end Closed

/-! ## Interning -/

/-- Whether a registry is another one with array types behind all others, under their names. -/
def AppendsArrays (r grown : Registry) : Prop :=
  ∃ arrays : List Declaration, grown.slots = r.slots ++ arrays.map some ∧
    grown.names = arrays.foldl (fun names d => names.insert d.fullName d.id) r.names ∧
    ∀ d ∈ arrays, ∃ component, d.flavor = .array component

theorem AppendsArrays.refl (r : Registry) : r.AppendsArrays r :=
  ⟨[], (List.append_nil _).symm, rfl, fun _ h => absurd h List.not_mem_nil⟩

theorem AppendsArrays.trans {a b c : Registry} (hab : a.AppendsArrays b) (hbc : b.AppendsArrays c) :
    a.AppendsArrays c := by
  obtain ⟨first, slots, names, arrays⟩ := hab
  obtain ⟨second, slots', names', arrays'⟩ := hbc
  refine ⟨first ++ second, ?_, ?_, List.forall_mem_append.mpr ⟨arrays, arrays'⟩⟩
  · rw [slots', slots, List.map_append, List.append_assoc]
  · rw [names', names, List.foldl_append]

theorem internArray_appends {component id : TypeId}
    (interned : r.internArray component = .ok (id, grown)) : r.AppendsArrays grown := by
  rcases internArray_cases interned with ⟨-, rfl⟩ | ⟨element, found, -, -, rfl⟩
  · exact .refl grown
  · refine ⟨[arrayDeclaration ⟨r.size⟩ component element (lt_size_of_find? found)], rfl, rfl, ?_⟩
    exact fun d listed => ⟨component, List.mem_singleton.mp listed ▸ rfl⟩

/-- Interning puts array types behind all others, and does nothing else. -/
theorem Interns.appends (h : r.Interns grown) : r.AppendsArrays grown := by
  induction h with
  | refl => exact .refl r
  | tail _ step ih =>
    obtain ⟨component, id, interned⟩ := step
    exact ih.trans (internArray_appends interned)

theorem Reachable.interns (h : r.Reachable) (interned : r.Interns grown) : grown.Reachable := by
  induction interned with
  | refl => exact h
  | tail _ step ih =>
    obtain ⟨component, id, interned⟩ := step
    exact ih.tail (.internArray interned)

/-- A registry that operations made and that mentions declared types only. -/
structure Sealed (r : Registry) : Prop where
  reachable : r.Reachable
  closed : r.Closed

theorem Reachable.published_object (h : r.Reachable) : r.Published .object := by
  obtain ⟨d, found, -⟩ := h.coherent.root
  exact .of_find? found

namespace Sealed

theorem object (h : r.Sealed) : r.Published .object := h.reachable.published_object

theorem internArray (h : r.Sealed) {component id : TypeId}
    (interned : r.internArray component = .ok (id, grown)) : grown.Sealed := by
  have step := Step.internArray interned
  refine ⟨h.reachable.tail step, ?_⟩
  rcases internArray_eq_ok interned with ⟨-, rfl⟩ | ⟨-, -, element, later, found, after⟩
  · exact h.closed
  · intro other d declared
    rw [after] at declared
    split at declared
    · cases declared
      -- an array type mentions the root type and its component
      have mentioned : r.Covers [.object, component] :=
        covers_cons.mpr ⟨h.object, covers_cons.mpr ⟨.of_find? found, r.covers_nil⟩⟩
      exact mentioned.extends step.extends
    · exact (h.closed other d declared).extends step.extends

theorem interns (h : r.Sealed) (interned : r.Interns grown) : grown.Sealed := by
  induction interned with
  | refl => exact h
  | tail _ step ih =>
    obtain ⟨component, id, interned⟩ := step
    exact ih.internArray interned

end Sealed

/-! ## Resolved types -/

theorem covers_subst {σ : Substitution} (hσ : ∀ x, r.Covers (σ x).ids) {t : GenericType}
    (ht : r.Covers t.ids) : r.Covers (t.subst σ).ids :=
  GenericType.forall_ids_subst hσ ht

theorem Sealed.resolves (h : r.Sealed) :
    Resolves (fun t => r.Covers t.ids) fun t => r.Covers t.ids where
  root := covers_cons.mpr ⟨h.object, r.covers_nil⟩
  subst _ _ hσ ht := covers_subst hσ ht

theorem Closed.declaresOnly (h : r.Closed) : r.DeclaresOnly fun t => r.Covers t.ids where
  args _ _ found clause written _ listed id occurs :=
    h.clauses found clause written id (GenericType.ids_of_mem_args listed id occurs)
  bounds _ _ found := h.typeParams found

end Registry

end PropertyTables
