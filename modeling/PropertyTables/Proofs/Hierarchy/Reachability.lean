import PropertyTables.Hierarchy.Walk
import Mathlib.Logic.Relation
import Mathlib.Tactic.Tauto

/-! # What walks meet

* `map_preorder`: a map that keeps types and successors carries a walk over to another one.
* `preorder_forall`: what holds where a walk starts, and passes on to successors, holds wherever it
  goes.
* `preorder_closed`: a walk leaves no successor out, other than those visited before it.
* `mem_preorder_iff`: a walk over identities meets those that can be reached and no others.
* `not_transGen_self_of_rank`: there are no cycles where a rank goes down.
-/

namespace PropertyTables
set_option autoImplicit false

/-- A relation along which a rank goes down has no cycles. -/
theorem not_transGen_self_of_rank {α : Type} {rel : α → α → Prop} (rank : α → Nat)
    (lower : ∀ a b, rel a b → rank b < rank a) (a : α) : ¬ Relation.TransGen rel a a := by
  have descends (a b : α) (path : Relation.TransGen rel a b) : rank b < rank a := by
    induction path with
    | single edge => exact lower _ _ edge
    | tail _ edge ih => exact Nat.lt_trans (lower _ _ edge) ih
  exact fun cycle => Nat.lt_irrefl _ (descends a a cycle)

/-! ## Walks whose nodes carry more than a type -/

section Nodes
variable {σ τ : Type} {key : σ → TypeId} {expand : σ → List σ}

theorem map_preorder (key' : τ → TypeId) {expand' : τ → List τ} (size : Nat) (f : σ → τ)
    (keys : ∀ s, key' (f s) = key s) (successors : ∀ s, expand' (f s) = (expand s).map f)
    (visited : List TypeId) (pending : List σ) :
    (preorder key expand size visited pending).map f =
      preorder key' expand' size visited (pending.map f) := by
  fun_induction preorder key expand size visited pending with
  | case1 visited => rw [List.map_nil, preorder]
  | case2 visited s rest met ih =>
    rw [List.map_cons, preorder, keys, if_pos met]
    exact ih
  | case3 visited s rest fresh bound ih =>
    rw [List.map_cons, List.map_cons, preorder, keys, if_neg fresh, if_pos bound, ih,
      List.map_append, successors]
  | case4 visited s rest fresh out ih =>
    rw [List.map_cons, List.map_cons, preorder, keys, if_neg fresh, if_neg out, ih]

theorem preorder_forall {P : σ → Prop} {size : Nat} {visited : List TypeId} {pending : List σ}
    (start : ∀ s ∈ pending, P s) (next : ∀ s, P s → ∀ t ∈ expand s, P t) :
    ∀ s ∈ preorder key expand size visited pending, P s := by
  fun_induction preorder key expand size visited pending with
  | case1 visited => simp
  | case2 visited s rest met ih => exact ih fun t ht => start t (List.mem_cons_of_mem _ ht)
  | case3 visited s rest fresh bound ih =>
    have here := start s List.mem_cons_self
    have later := ih fun t ht => by
      rcases List.mem_append.mp ht with ht | ht
      · exact next s here t ht
      · exact start t (List.mem_cons_of_mem _ ht)
    exact List.forall_mem_cons.mpr ⟨here, later⟩
  | case4 visited s rest fresh out ih =>
    have later := ih fun t ht => start t (List.mem_cons_of_mem _ ht)
    exact List.forall_mem_cons.mpr ⟨start s List.mem_cons_self, later⟩

theorem preorder_not_visited (size : Nat) (visited : List TypeId) (pending : List σ) :
    ∀ s ∈ preorder key expand size visited pending, key s ∉ visited := by
  fun_induction preorder key expand size visited pending with
  | case1 visited => simp
  | case2 visited s rest met ih => exact ih
  | case3 visited s rest fresh bound ih =>
    exact List.forall_mem_cons.mpr ⟨fresh, fun t ht => ih t ht ∘ List.mem_cons_of_mem _⟩
  | case4 visited s rest fresh out ih =>
    exact List.forall_mem_cons.mpr ⟨fresh, fun t ht => ih t ht ∘ List.mem_cons_of_mem _⟩

/-- A walk meets each type once. -/
theorem preorder_nodup (size : Nat) (visited : List TypeId) (pending : List σ) :
    ((preorder key expand size visited pending).map key).Nodup := by
  have once (s : σ) (visited : List TypeId) (pending : List σ) :
      key s ∉ (preorder key expand size (key s :: visited) pending).map key := by
    intro again
    obtain ⟨t, ht, same⟩ := List.mem_map.mp again
    exact preorder_not_visited size _ pending t ht (same ▸ List.mem_cons_self)
  fun_induction preorder key expand size visited pending with
  | case1 visited => exact .nil
  | case2 visited s rest met ih => exact ih
  | case3 visited s rest fresh bound ih => exact List.nodup_cons.mpr ⟨once s visited _, ih⟩
  | case4 visited s rest fresh out ih => exact List.nodup_cons.mpr ⟨once s visited _, ih⟩

end Nodes

/-! ## Walks over identities -/

section Identities
variable {next : TypeId → List TypeId} {size : Nat}

theorem preorder_closed (visited pending : List TypeId) :
    (∀ s ∈ pending, s ∈ visited ∨ s ∈ preorder (fun t => t) next size visited pending) ∧
    ∀ s ∈ preorder (fun t => t) next size visited pending, s.index < size →
      ∀ t ∈ next s, t ∈ visited ∨ t ∈ preorder (fun t => t) next size visited pending := by
  fun_induction preorder (fun t => t) next size visited pending with
  | case1 visited => simp
  | case2 visited s rest met ih =>
    exact ⟨List.forall_mem_cons.mpr ⟨.inl met, ih.1⟩, ih.2⟩
  | case3 visited s rest fresh bound ih =>
    obtain ⟨start, later⟩ := ih
    simp only [List.mem_append, List.mem_cons] at start later ⊢
    constructor
    · rintro t (rfl | ht)
      · exact .inr (.inl rfl)
      · have h := start t (.inr ht)
        tauto
    · rintro u (rfl | hu) small t ht
      · have h := start t (.inl ht)
        tauto
      · have h := later u hu small t ht
        tauto
  | case4 visited s rest fresh out ih =>
    obtain ⟨start, later⟩ := ih
    simp only [List.mem_cons] at start later ⊢
    constructor
    · rintro t (rfl | ht)
      · exact .inr (.inl rfl)
      · have h := start t ht
        tauto
    · rintro u (rfl | hu) small t ht
      · exact absurd small out
      · have h := later u hu small t ht
        tauto

theorem mem_preorder_iff (inside : ∀ s t, t ∈ next s → s.index < size) (pending : List TypeId)
    (t : TypeId) :
    t ∈ preorder (fun t => t) next size [] pending ↔
      ∃ s ∈ pending, Relation.ReflTransGen (fun a b => b ∈ next a) s t := by
  constructor
  · refine preorder_forall (P := fun t => ∃ s ∈ pending,
      Relation.ReflTransGen (fun a b => b ∈ next a) s t) ?_ ?_ t
    · intro s hs
      exact ⟨s, hs, .refl⟩
    · rintro a ⟨s, hs, path⟩ b hb
      exact ⟨s, hs, path.tail hb⟩
  · rintro ⟨s, hs, path⟩
    obtain ⟨start, closed⟩ := @preorder_closed next size [] pending
    simp only [List.not_mem_nil, false_or] at start closed
    induction path with
    | refl => exact start s hs
    | tail _ edge ih => exact closed _ ih (inside _ _ edge) _ edge

end Identities

end PropertyTables
