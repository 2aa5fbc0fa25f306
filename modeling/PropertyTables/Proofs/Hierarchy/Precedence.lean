import PropertyTables.Hierarchy.Dispatch
import PropertyTables.Proofs.Hierarchy.SuperclassChain
import PropertyTables.Proofs.Hierarchy.Supertypes

/-! # What dispatch asks first

* `preorder_predecessor`, `preorder_straight`: what comes before a node in a walk, and what after.
* `Registry.Treelike`: above a receiver, every interface has one place.
* `Treelike.precedes`: there, subtypes are asked before their supertypes.
* `dispatchOrder_later`: where to look is fixed once the types are declared.
-/

namespace PropertyTables
set_option autoImplicit false

/-! ## Before and after a node -/

section Nodes
variable {σ : Type} {key : σ → TypeId} {expand : σ → List σ} {size : Nat} {t : σ}

/-- A walk starts at what it meets, or met it as a successor of something before. -/
theorem preorder_predecessor {visited : List TypeId} {pending before after : List σ}
    (split : preorder key expand size visited pending = before ++ t :: after) :
    t ∈ pending ∨ ∃ s ∈ before, t ∈ expand s := by
  fun_induction preorder key expand size visited pending generalizing before with
  | case1 visited => simp at split
  | case2 visited s rest met ih =>
    exact (ih split).imp_left (List.mem_cons_of_mem s)
  | case3 visited s rest fresh bound ih =>
    cases before with
    | nil =>
      obtain ⟨rfl, -⟩ := List.cons.inj split
      exact .inl List.mem_cons_self
    | cons b bs =>
      obtain ⟨rfl, walk⟩ := List.cons.inj split
      rcases ih walk with start | ⟨p, earlier, edge⟩
      · rcases List.mem_append.mp start with edge | later
        · exact .inr ⟨s, List.mem_cons_self, edge⟩
        · exact .inl (List.mem_cons_of_mem s later)
      · exact .inr ⟨p, List.mem_cons_of_mem s earlier, edge⟩
  | case4 visited s rest fresh out ih =>
    cases before with
    | nil =>
      obtain ⟨rfl, -⟩ := List.cons.inj split
      exact .inl List.mem_cons_self
    | cons b bs =>
      obtain ⟨rfl, walk⟩ := List.cons.inj split
      rcases ih walk with later | ⟨p, earlier, edge⟩
      · exact .inl (List.mem_cons_of_mem s later)
      · exact .inr ⟨p, List.mem_cons_of_mem s earlier, edge⟩

/-- Where no node has two successors, a walk from one node goes straight ahead. -/
theorem preorder_straight (single : ∀ s, (expand s).length ≤ 1) {visited : List TypeId}
    {pending before after : List σ} (start : pending.length ≤ 1)
    (split : preorder key expand size visited pending = before ++ t :: after) :
    ∀ u ∈ after, Relation.TransGen (fun a b => b ∈ expand a) t u := by
  fun_induction preorder key expand size visited pending generalizing before with
  | case1 visited => simp at split
  | case2 visited s rest met ih =>
    exact ih (by simp at start; simp [start]) split
  | case3 visited s rest fresh bound ih =>
    obtain rfl : rest = [] := by simpa using start
    rw [List.append_nil] at ih split
    cases before with
    | nil =>
      obtain ⟨rfl, rfl⟩ := List.cons.inj split
      exact preorder_forall (fun u edge => .single edge) (fun a path b edge => path.tail edge)
    | cons b bs =>
      obtain ⟨rfl, walk⟩ := List.cons.inj split
      exact ih (single s) walk
  | case4 visited s rest fresh out ih =>
    obtain rfl : rest = [] := by simpa using start
    cases before with
    | nil =>
      obtain ⟨rfl, rfl⟩ := List.cons.inj split
      simp [preorder]
    | cons b bs =>
      obtain ⟨rfl, walk⟩ := List.cons.inj split
      exact ih (by simp) walk

end Nodes

namespace Registry
variable {r : Registry} {receiver : TypeId}

/-! ## The order of a receiver -/

theorem superclassChain_above {before after : List TypeId} {t : TypeId}
    (split : r.superclassChain receiver = before ++ t :: after) :
    ∀ u ∈ after, Relation.TransGen r.DeclaredSupertype t u := by
  intro u later
  have single (s : TypeId) : (r.superclass? s).toList.length ≤ 1 := by
    cases r.superclass? s <;> simp
  have start : [receiver].length ≤ 1 := Nat.le_refl 1
  have path := preorder_straight single start split u later
  exact Relation.TransGen.mono (fun a b => DeclaredSupertype.of_superclass) t u path

/-- Whatever dispatch asks that is no superclass of the receiver is an interface of one, or of a
type asked before. -/
theorem dispatchOrder_predecessor {before after : List TypeId} {t : TypeId}
    (off : t ∉ r.superclassChain receiver)
    (split : r.dispatchOrder receiver = before ++ t :: after) :
    (∃ s ∈ r.superclassChain receiver, t ∈ r.superinterfaces s) ∨
      ∃ s ∈ before, t ∈ r.superinterfaces s := by
  have walk : ∃ met, r.interfaceWalk List.reverse (r.superclassChain receiver)
      ((r.superclassChain receiver).flatMap r.superinterfaces).reverse = met ++ t :: after ∧
        ∀ s ∈ met, s ∈ before := by
    rcases List.append_eq_append_iff.mp split with ⟨met, rfl, walk⟩ | ⟨tail, chain, rest⟩
    · exact ⟨met, walk, fun s => List.mem_append_right _⟩
    · cases tail with
      | nil => exact ⟨[], rest.symm, by simp⟩
      | cons a tail =>
        obtain ⟨rfl, -⟩ := List.cons.inj rest
        exact absurd (by simp [chain]) off
  obtain ⟨met, walk, earlier⟩ := walk
  rcases preorder_predecessor walk with start | ⟨s, hs, edge⟩
  · obtain ⟨s, on_chain, edge⟩ := List.mem_flatMap.mp (List.mem_reverse.mp start)
    exact .inl ⟨s, on_chain, edge⟩
  · exact .inr ⟨s, earlier s hs, List.mem_reverse.mp edge⟩

theorem superinterface_mem_dispatchOrder {s t : TypeId} (listed : s ∈ r.dispatchOrder receiver)
    (edge : t ∈ r.superinterfaces s) : t ∈ r.dispatchOrder receiver := by
  obtain ⟨start, closed⟩ := @preorder_closed (fun t => (r.superinterfaces t).reverse) r.size
    (r.superclassChain receiver) ((r.superclassChain receiver).flatMap r.superinterfaces).reverse
  refine List.mem_append.mpr ?_
  rcases List.mem_append.mp listed with on_chain | met
  · exact start t (List.mem_reverse.mpr (List.mem_flatMap.mpr ⟨s, on_chain, edge⟩))
  · have bound := (DeclaredSupertype.of_superinterface edge).lt_size
    exact closed s met bound t (List.mem_reverse.mpr edge)

/-! ## Trees of interfaces -/

/-- Above the superclasses of a receiver, the interfaces form trees: they have no superclass, and
what one of them extends, nothing else implements or extends. -/
structure Treelike (r : Registry) (receiver : TypeId) : Prop where
  no_superclass : ∀ s ∈ r.dispatchOrder receiver, s ∉ r.superclassChain receiver →
    r.superclass? s = none
  off_chain : ∀ s ∈ r.dispatchOrder receiver, s ∉ r.superclassChain receiver →
    ∀ t ∈ r.superinterfaces s, t ∉ r.superclassChain receiver
  one_place : ∀ s ∈ r.dispatchOrder receiver, s ∉ r.superclassChain receiver →
    ∀ t ∈ r.superinterfaces s, ∀ other ∈ r.dispatchOrder receiver,
      t ∈ r.superinterfaces other → other = s

theorem Treelike.parent_first (tree : r.Treelike receiver) {s t : TypeId}
    (listed : s ∈ r.dispatchOrder receiver) (off : s ∉ r.superclassChain receiver)
    (edge : r.DeclaredSupertype s t) :
    t ∈ r.dispatchOrder receiver ∧ t ∉ r.superclassChain receiver ∧
      ∀ before after, r.dispatchOrder receiver = before ++ t :: after → s ∈ before := by
  have edge : t ∈ r.superinterfaces s := by
    have none := tree.no_superclass s listed off
    simpa [DeclaredSupertype, supertypes, none] using edge
  have above := tree.off_chain s listed off t edge
  refine ⟨superinterface_mem_dispatchOrder listed edge, above, fun before after split => ?_⟩
  have unique := tree.one_place s listed off t edge
  rcases dispatchOrder_predecessor above split with ⟨c, on_chain, named⟩ | ⟨c, earlier, named⟩
  · obtain rfl := unique c (List.mem_append_left _ on_chain) named
    exact absurd on_chain off
  · obtain rfl := unique c (by simp [split, earlier]) named
    exact earlier

/-- Off the superclass chain, what lies below a type is asked before it. -/
theorem Treelike.descendant_first (tree : r.Treelike receiver) {s t : TypeId}
    (listed : s ∈ r.dispatchOrder receiver) (off : s ∉ r.superclassChain receiver)
    (below : Relation.TransGen r.DeclaredSupertype s t) :
    t ∈ r.dispatchOrder receiver ∧ t ∉ r.superclassChain receiver ∧
      ∀ before after, r.dispatchOrder receiver = before ++ t :: after → s ∈ before := by
  induction below with
  | single edge => exact tree.parent_first listed off edge
  | tail _ edge ih =>
    obtain ⟨between, between_off, first⟩ := ih
    obtain ⟨there, there_off, parent⟩ := tree.parent_first between between_off edge
    refine ⟨there, there_off, fun before after split => ?_⟩
    obtain ⟨front, back, rfl⟩ := List.append_of_mem (parent before after split)
    rw [List.append_assoc] at split
    have earlier := first front _ split
    exact List.mem_append_left _ earlier

/-- Dispatch asks subtypes before their supertypes. -/
theorem Treelike.precedes (tree : r.Treelike receiver) (acyclic : r.Acyclic) {s t : TypeId}
    (listed : s ∈ r.dispatchOrder receiver) (below : Relation.TransGen r.DeclaredSupertype s t)
    {before after : List TypeId} (split : r.dispatchOrder receiver = before ++ t :: after) :
    s ∈ before := by
  by_cases on_chain : s ∈ r.superclassChain receiver
  · have split' := split
    rw [dispatchOrder] at split'
    rcases List.append_eq_append_iff.mp split' with ⟨met, rfl, -⟩ | ⟨tail, chain, rest⟩
    · exact List.mem_append_left _ on_chain
    · rw [chain] at on_chain
      rcases List.mem_append.mp on_chain with earlier | later
      · exact earlier
      · cases tail with
        | nil => cases later
        | cons a tail =>
          obtain ⟨rfl, -⟩ := List.cons.inj rest
          rcases List.mem_cons.mp later with rfl | later
          · exact absurd below (acyclic s)
          · exact absurd (below.trans (superclassChain_above chain s later)) (acyclic s)
  · exact (tree.descendant_first listed on_chain below).2.2 before after split

/-! ## Growing registries -/

theorem SupertypesPublished.dispatchOrder (closed : r.SupertypesPublished)
    (published : r.Published receiver) : ∀ id ∈ r.dispatchOrder receiver, r.Published id := by
  have chain : ∀ id ∈ r.superclassChain receiver, r.Published id :=
    preorder_forall (by simpa using published)
      fun s _ t edge => closed s t (.of_superclass edge)
  have walk : ∀ id ∈ r.interfaceWalk List.reverse (r.superclassChain receiver)
      ((r.superclassChain receiver).flatMap r.superinterfaces).reverse, r.Published id := by
    refine preorder_forall (fun t start => ?_) fun s _ t edge =>
      closed s t (.of_superinterface (List.mem_reverse.mp edge))
    obtain ⟨s, -, edge⟩ := List.mem_flatMap.mp (List.mem_reverse.mp start)
    exact closed s t (.of_superinterface edge)
  intro id listed
  exact (List.mem_append.mp listed).elim (chain id) (walk id)

theorem dispatchOrder_later {later : Registry} (grows : r.GrowsTo later)
    (declared : ∀ id ∈ r.dispatchOrder receiver, r.Published id) :
    later.dispatchOrder receiver = r.dispatchOrder receiver := by
  have on_chain (id : TypeId) (h : id ∈ r.superclassChain receiver) : r.Published id :=
    declared id (List.mem_append_left _ h)
  have chain : later.superclassChain receiver = r.superclassChain receiver :=
    grows.superclassChain on_chain
  have starts : (r.superclassChain receiver).flatMap later.superinterfaces =
      (r.superclassChain receiver).flatMap r.superinterfaces :=
    List.flatMap_congr fun id h => grows.superinterfaces (on_chain id h)
  have interfaces (id : TypeId) (h : r.Published id) :
      (later.superinterfaces id).reverse = (r.superinterfaces id).reverse := by
    rw [grows.superinterfaces h]
  have met := (walk_agreeUntil grows interfaces (r.superclassChain receiver)
    ((r.superclassChain receiver).flatMap r.superinterfaces).reverse).eq
      fun id h => declared id (List.mem_append_right _ h)
  rw [dispatchOrder, dispatchOrder, chain, starts, interfaceWalk, interfaceWalk, met]

end Registry

end PropertyTables
