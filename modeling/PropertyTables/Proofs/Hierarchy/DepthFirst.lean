import PropertyTables.Proofs.Hierarchy.Supertypes
import PropertyTables.Proofs.Registry.Evaluation
import PropertyTables.Table.Discovery
import Mathlib.Data.Set.Insert

/-! # The order of discovery

* `DepthFirst`: the order of a depth-first walk, said by recursion: a type, then what lies above it,
  then its siblings. `preorder_depthFirst`: this is the order of the walks here, which keep a list
  of what is pending.
* `Registry.DiscoveryWalk`: the types that discovery goes through: each class below the root type,
  then its interfaces depth first, then its superclass. `discoveryOrder_walk`: this is their order.
* `DepthFirst.unique`, `DiscoveryWalk.unique`: either order is determined.
-/

namespace PropertyTables
set_option autoImplicit false

/-! ## Depth first -/

/-- The types that a depth-first walk from `pending` meets, in order, where those in `visited` were
met before. -/
inductive DepthFirst (next : TypeId → List TypeId) :
    Set TypeId → List TypeId → List TypeId → Prop
  | done {visited : Set TypeId} : DepthFirst next visited [] []
  | again {visited : Set TypeId} {t : TypeId} {rest met : List TypeId} (seen : t ∈ visited)
      (beside : DepthFirst next visited rest met) : DepthFirst next visited (t :: rest) met
  | enter {visited : Set TypeId} {t : TypeId} {rest inner outer : List TypeId} (fresh : t ∉ visited)
      (above : DepthFirst next (insert t visited) (next t) inner)
      (beside : DepthFirst next (insert t visited ∪ {s | s ∈ inner}) rest outer) :
      DepthFirst next visited (t :: rest) (t :: inner ++ outer)

namespace DepthFirst
variable {next : TypeId → List TypeId} {visited : Set TypeId} {met : List TypeId}

/-- A walk from two lists is one from the first, then one from the second. -/
theorem split {before after : List TypeId} (h : DepthFirst next visited (before ++ after) met) :
    ∃ first second, met = first ++ second ∧ DepthFirst next visited before first ∧
      DepthFirst next (visited ∪ {s | s ∈ first}) after second := by
  generalize joined : before ++ after = pending at h
  induction h generalizing before with
  | done =>
    obtain ⟨rfl, rfl⟩ := List.append_eq_nil_iff.mp joined
    exact ⟨[], [], rfl, .done, .done⟩
  | @again visited t rest met seen beside ih =>
    cases before with
    | nil =>
      obtain rfl : after = t :: rest := joined
      exact ⟨[], met, rfl, .done, by simpa using DepthFirst.again seen beside⟩
    | cons b bs =>
      obtain ⟨rfl, tail⟩ := List.cons.inj joined
      obtain ⟨first, second, rfl, early, late⟩ := ih tail
      exact ⟨first, second, rfl, .again seen early, late⟩
  | @enter visited t rest inner outer fresh above beside _ ih =>
    cases before with
    | nil =>
      obtain rfl : after = t :: rest := joined
      exact ⟨[], _, rfl, .done, by simpa using DepthFirst.enter fresh above beside⟩
    | cons b bs =>
      obtain ⟨rfl, tail⟩ := List.cons.inj joined
      obtain ⟨first, second, rfl, early, late⟩ := ih tail
      refine ⟨b :: inner ++ first, second, by simp, .enter fresh above early, ?_⟩
      have same : visited ∪ {s | s ∈ b :: inner ++ first} =
          insert b visited ∪ {s | s ∈ inner} ∪ {s | s ∈ first} := by
        ext s
        simp only [List.cons_append, List.mem_cons, List.mem_append, Set.mem_union, Set.mem_insert_iff,
          Set.mem_ofPred_eq]
        tauto
      rwa [same]

/-- There is one such order. -/
theorem unique {pending other : List TypeId} (h : DepthFirst next visited pending met)
    (h' : DepthFirst next visited pending other) : met = other := by
  induction h generalizing other with
  | done =>
    cases h'
    rfl
  | again seen _ ih =>
    cases h' with
    | again _ beside => exact ih beside
    | enter fresh => exact absurd seen fresh
  | enter fresh _ _ inner_ih outer_ih =>
    cases h' with
    | again seen => exact absurd seen fresh
    | enter _ above beside =>
      obtain rfl := inner_ih above
      rw [outer_ih beside]

end DepthFirst

/-- A walk over a list of pending types goes depth first. -/
theorem preorder_depthFirst {next : TypeId → List TypeId} {size : Nat}
    (inside : ∀ s t, t ∈ next s → s.index < size) (visited pending : List TypeId) :
    DepthFirst next {t | t ∈ visited} pending
      (preorder (fun t => t) next size visited pending) := by
  have entered (s : TypeId) (visited : List TypeId) :
      {t | t ∈ s :: visited} = insert s {t | t ∈ visited} := by
    ext t
    exact List.mem_cons
  fun_induction preorder (fun t => t) next size visited pending with
  | case1 visited => exact .done
  | case2 visited s rest met ih => exact .again met ih
  | case3 visited s rest fresh bound ih =>
    obtain ⟨inner, outer, both, above, beside⟩ := ih.split
    rw [both]
    rw [entered] at above beside
    exact .enter fresh above beside
  | case4 visited s rest fresh out ih =>
    have alone : next s = [] :=
      List.eq_nil_iff_forall_not_mem.mpr fun t edge => out (inside s t edge)
    rw [entered] at ih
    have above : DepthFirst next (insert s {t | t ∈ visited}) (next s) [] := by
      rw [alone]
      exact .done
    exact .enter fresh above (by simpa using ih)

namespace Registry
variable {r : Registry} {limit room : Nat} {type : TypeId}

/-! ## Up the chain -/

/-- The types that discovery goes through from `start` upward, in order: a class, then the
interfaces above it that were not visited, depth first, then the same for its superclass, without
the root type. -/
inductive DiscoveryWalk (r : Registry) : Set TypeId → Option TypeId → List TypeId → Prop
  | top {visited : Set TypeId} : DiscoveryWalk r visited none []
  | root {visited : Set TypeId} : DiscoveryWalk r visited (some .object) []
  | climb {visited : Set TypeId} {c : TypeId} {met order : List TypeId} (other : c ≠ .object)
      (interfaces : DepthFirst r.superinterfaces visited (r.superinterfaces c) met)
      (above : DiscoveryWalk r (visited ∪ {t | t ∈ met}) (r.superclass? c) order) :
      DiscoveryWalk r visited (some c) (c :: met ++ order)

theorem DiscoveryWalk.unique {visited : Set TypeId} {start : Option TypeId}
    {order other : List TypeId} (h : r.DiscoveryWalk visited start order)
    (h' : r.DiscoveryWalk visited start other) : order = other := by
  induction h generalizing other with
  | top =>
    cases h'
    rfl
  | root =>
    cases h' with
    | root => rfl
    | climb below => exact absurd rfl below
  | climb below interfaces _ ih =>
    cases h' with
    | root => exact absurd rfl below
    | climb _ interfaces' above' =>
      obtain rfl := interfaces.unique interfaces'
      rw [ih above']

/-- Discovery goes through the hierarchy in this order. -/
theorem discoveryOrder_walk {visited chain : List TypeId} {start : Option TypeId}
    (walked : r.classChain limit room start = .ok chain) :
    r.DiscoveryWalk {t | t ∈ visited} start (r.discoveryOrder visited chain) := by
  induction room generalizing visited start chain with
  | zero =>
    cases start with
    | none =>
      cases walked
      exact .top
    | some id =>
      rw [classChain] at walked
      split at walked
      · rename_i here
        cases walked
        exact here ▸ .root
      · cases walked
  | succ room ih =>
    cases start with
    | none =>
      cases walked
      exact .top
    | some id =>
      rw [classChain] at walked
      split at walked
      · rename_i here
        cases walked
        exact here ▸ .root
      · rename_i other
        obtain ⟨d, found, walked⟩ := bind_eq_ok.mp walked
        obtain ⟨rest, above, walked⟩ := bind_eq_ok.mp walked
        cases walked
        have parent := superclass?_of_find? (find_eq_ok.mp found)
        have inside (s t : TypeId) (edge : t ∈ r.superinterfaces s) : s.index < r.size :=
          (DeclaredSupertype.of_superinterface edge).lt_size
        have interfaces := preorder_depthFirst inside visited (r.superinterfaces id)
        have later := @ih (r.interfaceWalk (fun l => l) visited (r.superinterfaces id) ++ visited)
          rest d.superclass? above
        rw [← parent] at later
        refine .climb other interfaces ?_
        convert later using 1
        ext t
        simp only [Set.mem_union, Set.mem_ofPred_eq, List.mem_append]
        exact or_comm

end Registry

end PropertyTables
