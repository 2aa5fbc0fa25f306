import PropertyTables.Proofs.Hierarchy.GrowingWalks

/-! # Chains of superclasses

* `Registry.DeclaredSuperclass`: one class names another as its superclass.
* `Registry.mem_superclassChain_iff`: a chain lists what can be reached over superclasses.
* `Registry.GrowsTo.superclassChain`: growth leaves a chain as it is, once its classes are declared.
-/

namespace PropertyTables
set_option autoImplicit false

namespace Registry
variable {r later : Registry} {s t u : TypeId}

/-- `t` is the superclass of `s`. -/
def DeclaredSuperclass (r : Registry) (s t : TypeId) : Prop := r.superclass? s = some t

theorem DeclaredSuperclass.published (h : r.DeclaredSuperclass s t) : r.Published s := by
  obtain ⟨d, found, -⟩ := Option.bind_eq_some_iff.mp h
  exact .of_find? found

theorem DeclaredSuperclass.grow (grows : r.GrowsTo later) (h : r.DeclaredSuperclass s t) :
    later.DeclaredSuperclass s t := by
  rw [DeclaredSuperclass, superclass?, grows.find? h.published]
  exact h

theorem mem_superclassChain_iff :
    t ∈ r.superclassChain s ↔ Relation.ReflTransGen r.DeclaredSuperclass s t := by
  have edges : (fun a b => b ∈ (r.superclass? a).toList) = r.DeclaredSuperclass := by
    funext a b
    exact propext Option.mem_toList
  have inside (a b : TypeId) (edge : b ∈ (r.superclass? a).toList) : a.index < r.size :=
    (DeclaredSuperclass.published (Option.mem_toList.mp edge)).lt_size
  rw [superclassChain, mem_preorder_iff inside, edges]
  simp

theorem self_mem_superclassChain (r : Registry) (s : TypeId) : s ∈ r.superclassChain s :=
  mem_superclassChain_iff.mpr .refl

theorem superclassChain_trans (first : t ∈ r.superclassChain s) (second : u ∈ r.superclassChain t) :
    u ∈ r.superclassChain s :=
  mem_superclassChain_iff.mpr
    ((mem_superclassChain_iff.mp first).trans (mem_superclassChain_iff.mp second))

theorem superclassChain_nodup (r : Registry) (s : TypeId) : (r.superclassChain s).Nodup := by
  have nodup : ((r.superclassChain s).map fun t => t).Nodup := preorder_nodup r.size [] [s]
  rwa [List.map_id'] at nodup

/-- Chains only ever grow. -/
theorem mem_superclassChain_later (grows : r.GrowsTo later) (h : t ∈ r.superclassChain s) :
    t ∈ later.superclassChain s :=
  mem_superclassChain_iff.mpr
    (Relation.ReflTransGen.mono (fun _ _ edge => edge.grow grows) _ _ (mem_superclassChain_iff.mp h))

/-- A chain of declared classes stays as it is. -/
theorem GrowsTo.superclassChain (grows : r.GrowsTo later)
    (declared : ∀ id ∈ r.superclassChain s, r.Published id) :
    later.superclassChain s = r.superclassChain s := by
  have same (id : TypeId) (h : r.Published id) :
      (later.superclass? id).toList = (r.superclass? id).toList := by
    rw [superclass?, superclass?, grows.find? h]
  exact ((walk_agreeUntil grows same [] [s]).eq declared).symm

end Registry

end PropertyTables
