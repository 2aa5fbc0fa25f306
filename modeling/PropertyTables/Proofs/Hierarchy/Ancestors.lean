import PropertyTables.Proofs.Hierarchy.SuperclassChain
import Mathlib.Data.Fintype.Pigeonhole

/-! # Ancestors by distance

* `Registry.ancestor?`: the class that lies so many steps above a type.
* `Registry.EndlessChain`: the chain of a type runs into a circle.
* `ancestor?_ne_none_iff`: there is an ancestor at a distance if the chain has more classes than
  that, or if it is endless.
* `superclassChain_cons`: a chain that ends is a type followed by the chain of its superclass.
-/

namespace PropertyTables
set_option autoImplicit false

namespace Registry
variable {r later : Registry} {id c : TypeId} {n : Nat}

/-- The class that lies so many steps above a type in its superclass chain. -/
def ancestor? (r : Registry) : Nat → TypeId → Option TypeId
  | 0, id => some id
  | n + 1, id => (r.superclass? id).bind (r.ancestor? n)

/-- Whether the superclass chain of a type runs into a circle. -/
def EndlessChain (r : Registry) (id : TypeId) : Prop :=
  ∃ c ∈ r.superclassChain id, Relation.TransGen r.DeclaredSuperclass c c

/-! ## Distances along the chain -/

theorem ancestor?_add (m n : Nat) (id : TypeId) :
    r.ancestor? (m + n) id = (r.ancestor? m id).bind (r.ancestor? n) := by
  induction m generalizing id with
  | zero => rw [Nat.zero_add, ancestor?, Option.bind_some]
  | succ m ih =>
    rw [Nat.succ_add, ancestor?, ancestor?, Option.bind_assoc]
    exact congrArg _ (funext ih)

theorem ancestor?_eq_none_of_le {m : Nat} (gone : r.ancestor? m id = none) (le : m ≤ n) :
    r.ancestor? n id = none := by
  obtain ⟨k, rfl⟩ := Nat.exists_eq_add_of_le le
  rw [ancestor?_add, gone, Option.bind_none]

theorem reflTransGen_of_ancestor? (h : r.ancestor? n id = some c) :
    Relation.ReflTransGen r.DeclaredSuperclass id c := by
  induction n generalizing id with
  | zero => exact Option.some.inj h ▸ .refl
  | succ n ih =>
    obtain ⟨parent, edge, above⟩ := Option.bind_eq_some_iff.mp h
    exact .head edge (ih above)

theorem transGen_of_ancestor? (h : r.ancestor? (n + 1) id = some c) :
    Relation.TransGen r.DeclaredSuperclass id c := by
  obtain ⟨parent, edge, above⟩ := Option.bind_eq_some_iff.mp h
  exact .head' edge (reflTransGen_of_ancestor? above)

theorem mem_superclassChain_of_ancestor? (h : r.ancestor? n id = some c) :
    c ∈ r.superclassChain id :=
  mem_superclassChain_iff.mpr (reflTransGen_of_ancestor? h)

theorem exists_ancestor?_of_mem (h : c ∈ r.superclassChain id) :
    ∃ n, r.ancestor? n id = some c := by
  have path := mem_superclassChain_iff.mp h
  induction path using Relation.ReflTransGen.head_induction_on with
  | refl => exact ⟨0, rfl⟩
  | head edge path ih =>
    obtain ⟨n, above⟩ := ih (mem_superclassChain_iff.mpr path)
    exact ⟨n + 1, by rw [ancestor?, edge, Option.bind_some, above]⟩

/-- Once around a circle leads around it any number of times. -/
theorem ancestor?_circle (circle : r.ancestor? (n + 1) id = some id) (m : Nat) :
    r.ancestor? m id ≠ none := by
  have around (k : Nat) : r.ancestor? ((n + 1) * k) id = some id := by
    induction k with
    | zero => rfl
    | succ k ih => rw [Nat.mul_succ, ancestor?_add, ih, Option.bind_some, circle]
  intro gone
  have later := ancestor?_eq_none_of_le gone (Nat.le_mul_of_pos_left m n.succ_pos)
  rw [around m] at later
  cases later

/-! ## Chains that end -/

/-- A walk takes no notice of a visited type that it does not come to. -/
theorem preorder_unmet {next : TypeId → List TypeId} {size : Nat}
    {visited visited' pending : List TypeId} (more : ∀ t, t ∈ visited' ↔ t = id ∨ t ∈ visited)
    (unmet : id ∉ preorder (fun t => t) next size visited pending) :
    preorder (fun t => t) next size visited' pending =
      preorder (fun t => t) next size visited pending := by
  have pushed (s : TypeId) {visited visited' : List TypeId}
      (more : ∀ t, t ∈ visited' ↔ t = id ∨ t ∈ visited) (t : TypeId) :
      t ∈ s :: visited' ↔ t = id ∨ t ∈ s :: visited := by
    simp only [List.mem_cons, more t]
    tauto
  fun_induction preorder (fun t => t) next size visited pending generalizing visited' with
  | case1 visited => rw [preorder]
  | case2 visited s rest met ih =>
    rw [preorder_cons_visited _ ((more s).mpr (.inr met))]
    exact ih more unmet
  | case3 visited s rest fresh bound ih =>
    rw [List.mem_cons, not_or] at unmet
    have fresh' : s ∉ visited' := fun met => ((more s).mp met).elim (unmet.1 ·.symm) fresh
    rw [preorder_cons_fresh _ fresh', if_pos bound, ih (pushed s more) unmet.2]
  | case4 visited s rest fresh out ih =>
    rw [List.mem_cons, not_or] at unmet
    have fresh' : s ∉ visited' := fun met => ((more s).mp met).elim (unmet.1 ·.symm) fresh
    rw [preorder_cons_fresh _ fresh', if_neg out, List.nil_append, ih (pushed s more) unmet.2]

/-- A type that is not above itself comes before the chain of its superclass. -/
theorem superclassChain_cons (fresh : ∀ parent ∈ r.superclass? id, id ∉ r.superclassChain parent) :
    r.superclassChain id = id :: (r.superclass? id).elim [] r.superclassChain := by
  rw [superclassChain, preorder_cons_fresh _ List.not_mem_nil, List.append_nil]
  cases above : r.superclass? id with
  | none => rw [Option.toList_none, ite_self, preorder, Option.elim_none]
  | some parent =>
    have bound : id.index < r.size := (DeclaredSuperclass.published above).lt_size
    rw [if_pos bound, Option.toList_some, Option.elim_some,
      preorder_unmet (by simp) (fresh parent above)]
    rfl

/-- A type whose chain ends is not above itself. -/
theorem notMem_of_ends {m : Nat} (ends : r.ancestor? m id = none) :
    ∀ parent ∈ r.superclass? id, id ∉ r.superclassChain parent := by
  intro parent edge again
  obtain ⟨k, back⟩ := exists_ancestor?_of_mem again
  exact ancestor?_circle (n := k) (by rw [ancestor?, edge, Option.bind_some, back]) m ends

/-- A chain that ends lists the ancestors by distance. -/
theorem ancestor?_eq_getElem? {m : Nat} (ends : r.ancestor? m id = none) (n : Nat) :
    r.ancestor? n id = (r.superclassChain id)[n]? := by
  induction m generalizing id n with
  | zero => cases ends
  | succ m ih =>
    rw [superclassChain_cons (notMem_of_ends ends)]
    cases n with
    | zero => rfl
    | succ n =>
      rw [List.getElem?_cons_succ, ancestor?]
      rw [ancestor?] at ends
      cases above : r.superclass? id with
      | none => rfl
      | some parent =>
        rw [above] at ends
        exact ih ends n

/-- A chain in which every distance has an ancestor comes to one class twice. -/
theorem endlessChain_of_ancestors (all : ∀ n, r.ancestor? n id ≠ none) : r.EndlessChain id := by
  have listed (n : Nat) : ∃ c, r.ancestor? n id = some c ∧ c ∈ r.superclassChain id := by
    obtain ⟨c, above⟩ := Option.ne_none_iff_exists'.mp (all n)
    exact ⟨c, above, mem_superclassChain_of_ancestor? above⟩
  choose class_at above member using listed
  have circle (i j : Nat) (less : i < j) (same : class_at i = class_at j) : r.EndlessChain id := by
    refine ⟨class_at i, member i, ?_⟩
    obtain ⟨k, rfl⟩ := Nat.exists_eq_add_of_lt less
    have again := above (i + k + 1)
    rw [Nat.add_assoc, ancestor?_add, above i, Option.bind_some] at again
    exact transGen_of_ancestor? (again.trans (congrArg some same.symm))
  obtain ⟨i, j, differ, same⟩ := Finite.exists_ne_map_eq_of_infinite fun n : Nat =>
    (⟨class_at n, member n⟩ : { c // c ∈ r.superclassChain id })
  rcases Nat.lt_or_gt_of_ne differ with less | less
  · exact circle i j less (congrArg Subtype.val same)
  · exact circle j i less (congrArg Subtype.val same.symm)

theorem EndlessChain.ancestor? (h : r.EndlessChain id) (n : Nat) : r.ancestor? n id ≠ none := by
  obtain ⟨c, listed, circle⟩ := h
  obtain ⟨k, above⟩ := exists_ancestor?_of_mem listed
  obtain ⟨parent, edge, path⟩ := Relation.TransGen.head'_iff.mp circle
  obtain ⟨m, back⟩ := exists_ancestor?_of_mem (mem_superclassChain_iff.mpr path)
  intro gone
  have later := ancestor?_eq_none_of_le gone (Nat.le_add_left n k)
  rw [ancestor?_add, above, Option.bind_some] at later
  exact ancestor?_circle (n := m) (by rw [Registry.ancestor?, edge, Option.bind_some, back]) n later

/-- There is an ancestor at a distance if the chain has more classes than that, or no end. -/
theorem ancestor?_ne_none_iff :
    r.ancestor? n id ≠ none ↔ n < (r.superclassChain id).length ∨ r.EndlessChain id := by
  by_cases ends : ∃ m, r.ancestor? m id = none
  · obtain ⟨m, ends⟩ := ends
    have finite : ¬ r.EndlessChain id := fun endless => endless.ancestor? m ends
    rw [ancestor?_eq_getElem? ends n, ne_eq, List.getElem?_eq_none_iff, Nat.not_le,
      or_iff_left finite]
  · have all (m : Nat) : r.ancestor? m id ≠ none := fun gone => ends ⟨m, gone⟩
    exact ⟨fun _ => .inr (endlessChain_of_ancestors all), fun _ => all n⟩

/-! ## Growth -/

theorem GrowsTo.ancestor? (grows : r.GrowsTo later)
    (declared : ∀ c ∈ r.superclassChain id, r.Published c) (n : Nat) :
    later.ancestor? n id = r.ancestor? n id := by
  induction n generalizing id with
  | zero => rfl
  | succ n ih =>
    have same : later.superclass? id = r.superclass? id := by
      rw [superclass?, superclass?, grows.find? (declared id (r.self_mem_superclassChain id))]
    rw [Registry.ancestor?, Registry.ancestor?, same]
    cases above : r.superclass? id with
    | none => rfl
    | some parent =>
      have edge := mem_superclassChain_iff.mpr (Relation.ReflTransGen.single above)
      exact ih fun c listed => declared c (superclassChain_trans edge listed)

end Registry

end PropertyTables
