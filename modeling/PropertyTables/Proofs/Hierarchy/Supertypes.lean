import PropertyTables.Hierarchy.Subtype
import PropertyTables.Proofs.Hierarchy.Reachability
import PropertyTables.Proofs.Registry.Runs

/-! # The declared hierarchy

* `Registry.DeclaredSupertype`: one type names another in a supertype clause.
* `Registry.SupertypesPublished`, `Registry.Acyclic`: no clause names an undeclared type, and no
  type is above itself.
* `reaches_eq_ok`: where all supertypes are declared, a walk answers, also on a cyclic hierarchy,
  and `mem_supertypeWalk` says what it answers.
-/

namespace PropertyTables
set_option autoImplicit false

namespace Registry

/-! ## Clauses as edges -/

/-- `t` is named in a supertype clause of `s`. -/
def DeclaredSupertype (r : Registry) (s t : TypeId) : Prop := t ∈ r.supertypes s

theorem declaredSupertype_iff {r : Registry} {s t : TypeId} :
    r.DeclaredSupertype s t ↔
      ∃ d, r.find? s = some d ∧ ∃ clause ∈ d.clauses, clause.raw? = some t := by
  rw [DeclaredSupertype, supertypes, superinterfaces, superclass?]
  cases found : r.find? s with
  | none => simp
  | some d =>
    cases parent : d.superclass <;>
      simp [Declaration.superinterfaces, Declaration.superclass?, Declaration.clauses, parent,
        or_comm]

theorem DeclaredSupertype.of_superclass {r : Registry} {s t : TypeId}
    (h : t ∈ (r.superclass? s).toList) : r.DeclaredSupertype s t :=
  List.mem_append_right _ h

theorem DeclaredSupertype.of_superinterface {r : Registry} {s t : TypeId}
    (h : t ∈ r.superinterfaces s) : r.DeclaredSupertype s t :=
  List.mem_append_left _ (List.mem_reverse.mpr h)

theorem DeclaredSupertype.lt_size {r : Registry} {s t : TypeId} (h : r.DeclaredSupertype s t) :
    s.index < r.size := by
  obtain ⟨d, found, -⟩ := declaredSupertype_iff.mp h
  exact lt_size_of_find? found

/-- A property of all edges is a property of finitely many. -/
theorem forall_supertypes_iff {r : Registry} {P : TypeId → TypeId → Prop} :
    (∀ s t, r.DeclaredSupertype s t → P s t) ↔ ∀ i < r.size, ∀ t ∈ r.supertypes ⟨i⟩, P ⟨i⟩ t :=
  ⟨fun h i _ t ht => h ⟨i⟩ t ht, fun h s t ht => h s.index ht.lt_size t ht⟩

/-- Whether every type that a supertype clause names is declared. -/
def SupertypesPublished (r : Registry) : Prop := ∀ s t, r.DeclaredSupertype s t → r.Published t

instance (r : Registry) : Decidable r.SupertypesPublished :=
  decidable_of_iff _ forall_supertypes_iff.symm

/-- Whether no type is its own supertype, at any distance. -/
def Acyclic (r : Registry) : Prop := ∀ t, ¬ Relation.TransGen r.DeclaredSupertype t t

theorem acyclic_of_rank {r : Registry} (rank : TypeId → Nat)
    (h : ∀ s t, r.DeclaredSupertype s t → rank t < rank s) : r.Acyclic :=
  not_transGen_self_of_rank rank h

/-! ## Walking over the edges -/

/-- The types that subtyping looks through, from a type upward. -/
def supertypeWalk (r : Registry) (source : TypeId) : List TypeId :=
  preorder (fun t => t) r.supertypes r.size [] [source]

theorem mem_supertypeWalk {r : Registry} {source t : TypeId} :
    t ∈ r.supertypeWalk source ↔ Relation.ReflTransGen r.DeclaredSupertype source t := by
  rw [supertypeWalk, mem_preorder_iff fun _ _ edge => DeclaredSupertype.lt_size edge]
  constructor
  · rintro ⟨s, hs, path⟩
    exact List.mem_singleton.mp hs ▸ path
  · exact fun path => ⟨source, List.mem_singleton_self source, path⟩

theorem SupertypesPublished.of_path {r : Registry} (closed : r.SupertypesPublished) {s t : TypeId}
    (hs : r.Published s) (path : Relation.ReflTransGen r.DeclaredSupertype s t) :
    r.Published t := by
  cases path with
  | refl => exact hs
  | tail _ edge => exact closed _ _ edge

theorem findAmong_eq_ok {r : Registry} (target : TypeId) {l : List TypeId}
    (h : ∀ id ∈ l, r.Published id) : r.findAmong target l = .ok (decide (target ∈ l)) := by
  induction l with
  | nil => simp [findAmong]
  | cons id rest ih =>
    obtain ⟨d, found⟩ := published_iff.mp (h id List.mem_cons_self)
    rw [findAmong, find_eq_ok.mpr found]
    by_cases same : id = target
    · simp [same]
    · have later := ih fun t ht => h t (List.mem_cons_of_mem _ ht)
      simp [same, Ne.symm same, later]

theorem reaches_eq_ok {r : Registry} (closed : r.SupertypesPublished) (target : TypeId)
    {source : TypeId} (hs : r.Published source) :
    r.reaches target source = .ok (decide (target ∈ r.supertypeWalk source)) :=
  findAmong_eq_ok target fun _ ht => closed.of_path hs (mem_supertypeWalk.mp ht)

end Registry

end PropertyTables
