import PropertyTables.Registry.Growth

/-! # Walks over the type hierarchy

* `preorder`: the nodes that a depth-first walk meets, each type once, in the order of meeting them.
  Nodes may carry more than the identity of their type.
* `Registry.superclassChain`: a type, its superclass, the superclass of that, and so on, up to the
  first repetition.

A walk lists identities without a declaration as well, so that whoever goes through the list finds
out about them in its turn.
-/

namespace PropertyTables
set_option autoImplicit false

/-- How many of the identities below `size` are not in the list. -/
def unvisited (size : Nat) (visited : List TypeId) : Nat :=
  (List.range size).countP fun i => TypeId.mk i ∉ visited

theorem unvisited_cons_le (size : Nat) (id : TypeId) (visited : List TypeId) :
    unvisited size (id :: visited) ≤ unvisited size visited :=
  List.countP_mono_left fun i _ h => by
    simp only [List.mem_cons, not_or, decide_eq_true_eq] at h ⊢
    exact h.2

theorem unvisited_cons_lt {size : Nat} {id : TypeId} {visited : List TypeId}
    (bound : id.index < size) (fresh : id ∉ visited) :
    unvisited size (id :: visited) < unvisited size visited := by
  obtain ⟨before, after, split⟩ := List.append_of_mem (List.mem_range.mpr bound)
  have mono (l : List Nat) : l.countP (fun i => TypeId.mk i ∉ id :: visited) ≤
      l.countP fun i => TypeId.mk i ∉ visited :=
    List.countP_mono_left fun i _ h => by
      simp only [List.mem_cons, not_or, decide_eq_true_eq] at h ⊢
      exact h.2
  have first := mono before
  have last := mono after
  have out : ¬ decide (TypeId.mk id.index ∉ id :: visited) = true := by simp
  have inside : decide (TypeId.mk id.index ∉ visited) = true := by simpa using fresh
  rw [unvisited, unvisited, split, List.countP_append, List.countP_append,
    List.countP_cons, List.countP_cons, if_neg out, if_pos inside]
  omega

section Preorder

variable {σ : Type} (key : σ → TypeId) (expand : σ → List σ) (size : Nat)

/-- The nodes of a depth-first walk from `pending`, in the order of meeting them. A node is passed
over if its type was visited, and followed by the walk from its successors otherwise. Only types
below `size` have successors. -/
def preorder (visited : List TypeId) (pending : List σ) : List σ :=
  match pending with
  | [] => []
  | s :: rest =>
    if key s ∈ visited then preorder visited rest
    else if (key s).index < size then s :: preorder (key s :: visited) (expand s ++ rest)
    else s :: preorder (key s :: visited) rest
termination_by (unvisited size visited, pending.length)
decreasing_by
  · exact Prod.Lex.right _ (Nat.lt_succ_self _)
  · rename_i fresh bound
    exact Prod.Lex.left _ _ (unvisited_cons_lt bound fresh)
  · rename_i fresh _
    rcases Nat.lt_or_eq_of_le (unvisited_cons_le size (key s) visited) with less | same
    · exact Prod.Lex.left _ _ less
    · rw [same]
      exact Prod.Lex.right _ (Nat.lt_succ_self _)

end Preorder

namespace Registry

/-- A type and its superclasses from the bottom up, until one repeats. -/
def superclassChain (r : Registry) (id : TypeId) : List TypeId :=
  preorder (fun t => t) (fun t => (r.superclass? t).toList) r.size [] [id]

/-- The types that a depth-first walk from `pending` meets by interfaces alone; each type's
interfaces are met in the order that `arrange` gives. -/
def interfaceWalk (r : Registry) (arrange : List TypeId → List TypeId)
    (visited pending : List TypeId) : List TypeId :=
  preorder (fun t => t) (fun t => arrange (r.superinterfaces t)) r.size visited pending

end Registry

end PropertyTables
