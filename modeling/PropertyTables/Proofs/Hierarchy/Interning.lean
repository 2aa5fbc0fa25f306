import PropertyTables.Proofs.Hierarchy.SuperclassChain
import PropertyTables.Proofs.Hierarchy.Supertypes
import PropertyTables.Proofs.Registry.Permanence

/-! # Hierarchies under interning

* `Interns.find?_cases`: interning declares nothing but types without members below the root type.
* `Interns.superclassChain_append`: it puts at most the root type behind a chain that ends in an
  undeclared type.
* `SupertypesPublished.interns`: supertypes that are all declared stay so.
-/

namespace PropertyTables.Registry
set_option autoImplicit false

variable {r grown : Registry}

/-! ## Interned declarations -/

/-- What interning declares has neither methods nor fields, and no supertype but the root type. -/
theorem Interns.find?_cases (h : r.Interns grown) {id : TypeId} {d : Declaration}
    (found : grown.find? id = some d) :
    r.find? id = some d ∨
      r.find? id = none ∧ d.methods = [] ∧ d.fields = [] ∧ d.superclass? = some .object := by
  induction h with
  | refl => exact .inl found
  | @tail middle _ before step ih =>
    obtain ⟨component, array, done⟩ := step
    rcases internArray_eq_ok done with ⟨-, rfl⟩ | ⟨-, -, element, later, -, after⟩
    · exact ih found
    · rw [after] at found
      split at found
      · rename_i here
        cases found
        refine .inr ⟨?_, rfl, rfl, rfl⟩
        by_contra known
        obtain ⟨e, known⟩ := Option.ne_none_iff_exists'.mp known
        have kept := (Interns.growsTo before).declared id e known
        rw [here, find?_size] at kept
        cases kept
      · exact ih found

theorem Interns.superclass?_cases (h : r.Interns grown) (id : TypeId) :
    grown.superclass? id = r.superclass? id ∨
      r.superclass? id = none ∧ grown.superclass? id = some .object := by
  cases found : grown.find? id with
  | none =>
    have unknown : r.find? id = none := by
      by_contra known
      obtain ⟨d, known⟩ := Option.ne_none_iff_exists'.mp known
      rw [h.growsTo.declared id d known] at found
      cases found
    rw [superclass?, superclass?, found, unknown]
    exact .inl rfl
  | some d =>
    rcases h.find?_cases found with known | ⟨unknown, -, -, parent⟩
    · rw [superclass?, superclass?, found, known]
      exact .inl rfl
    · rw [superclass?, superclass?, found, unknown]
      exact .inr ⟨rfl, parent⟩

/-! ## The root type -/

theorem Reachable.superclass?_object (h : r.Reachable) : r.superclass? .object = none := by
  rw [superclass?, h.extends .object _ rfl]
  rfl

theorem Reachable.superinterfaces_object (h : r.Reachable) : r.superinterfaces .object = [] := by
  rw [superinterfaces, h.extends .object _ rfl]
  rfl

/-! ## Chains -/

/-- The walk from a class and its superclasses. -/
def superclassWalk (r : Registry) (visited : List TypeId) (start : Option TypeId) : List TypeId :=
  preorder (fun t => t) (fun t => (r.superclass? t).toList) r.size visited start.toList

theorem superclassWalk_visited {visited : List TypeId} {id : TypeId} (met : id ∈ visited) :
    r.superclassWalk visited (some id) = [] := by
  rw [superclassWalk, Option.toList_some, preorder_cons_visited [] met, preorder]

theorem superclassWalk_fresh {visited : List TypeId} {id : TypeId} (fresh : id ∉ visited) :
    r.superclassWalk visited (some id) =
      id :: r.superclassWalk (id :: visited) (r.superclass? id) := by
  have within : (if id.index < r.size then (r.superclass? id).toList else []) =
      (r.superclass? id).toList := by
    split
    · rfl
    · rename_i out
      cases found : r.find? id with
      | none => rw [superclass?, found]; rfl
      | some d => exact absurd (lt_size_of_find? found) out
  rw [superclassWalk, Option.toList_some, preorder_cons_fresh [] fresh, within, List.append_nil]
  rfl

theorem superclassWalk_none (visited : List TypeId) : r.superclassWalk visited none = [] := by
  rw [superclassWalk, Option.toList_none, preorder]

/-- Interning puts at most the root type behind a chain, where it ended in an undeclared type. -/
theorem Interns.superclassWalk_append (h : r.Interns grown)
    (root : grown.superclass? .object = none) (visited : List TypeId) (start : Option TypeId) :
    ∃ more, grown.superclassWalk visited start = r.superclassWalk visited start ++ more ∧
      ∀ t ∈ more, t = .object := by
  cases start with
  | none => exact ⟨[], by rw [superclassWalk_none, superclassWalk_none]; rfl, by simp⟩
  | some id =>
    by_cases met : id ∈ visited
    · exact ⟨[], by rw [superclassWalk_visited met, superclassWalk_visited met]; rfl, by simp⟩
    · have rest : ∃ more, grown.superclassWalk (id :: visited) (grown.superclass? id) =
          r.superclassWalk (id :: visited) (r.superclass? id) ++ more ∧ ∀ t ∈ more, t = .object := by
        cases parent : r.superclass? id with
        | some above =>
          have bound : id.index < r.size := (DeclaredSuperclass.published parent).lt_size
          have smaller := unvisited_cons_lt bound met
          have same : grown.superclass? id = some above := DeclaredSuperclass.grow h.growsTo parent
          rw [same]
          exact h.superclassWalk_append root (id :: visited) (some above)
        | none =>
          rw [superclassWalk_none]
          rcases h.superclass?_cases id with same | ⟨-, top⟩
          · rw [same, parent, superclassWalk_none]
            exact ⟨[], rfl, by simp⟩
          · rw [top]
            by_cases twice : .object ∈ id :: visited
            · exact ⟨[], superclassWalk_visited twice, by simp⟩
            · refine ⟨[.object], ?_, by simp⟩
              rw [superclassWalk_fresh twice, root, superclassWalk_none]
              rfl
      obtain ⟨more, walk, tops⟩ := rest
      refine ⟨more, ?_, tops⟩
      rw [superclassWalk_fresh met, superclassWalk_fresh met, walk, List.cons_append]
termination_by unvisited r.size visited

theorem Interns.superclassChain_append (h : r.Interns grown) (reachable : grown.Reachable)
    (receiver : TypeId) :
    ∃ more, grown.superclassChain receiver = r.superclassChain receiver ++ more ∧
      ∀ t ∈ more, t = .object :=
  h.superclassWalk_append reachable.superclass?_object [] (some receiver)

/-! ## Declared supertypes -/

theorem SupertypesPublished.interns (closed : r.SupertypesPublished) (reachable : r.Reachable)
    (h : r.Interns grown) : grown.SupertypesPublished := by
  have kept {id : TypeId} (declared : r.Published id) : grown.Published id :=
    h.growsTo.declared.published declared
  intro s t edge
  rcases List.mem_append.mp edge with interface | parent
  · rw [h.superinterfaces_eq] at interface
    exact kept (closed s t (.of_superinterface (List.mem_reverse.mp interface)))
  · rcases h.superclass?_cases s with same | ⟨-, top⟩
    · rw [same] at parent
      exact kept (closed s t (.of_superclass parent))
    · rw [top] at parent
      obtain ⟨d, root, -⟩ := reachable.coherent.root
      exact List.mem_singleton.mp parent ▸ kept (.of_find? root)

end PropertyTables.Registry
