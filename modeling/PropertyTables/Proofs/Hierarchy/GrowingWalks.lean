import PropertyTables.Hierarchy.Subtype
import PropertyTables.Proofs.Hierarchy.Reachability
import PropertyTables.Proofs.Registry.Lasting
import PropertyTables.Table.Discovery
import Mathlib.Data.List.Forall2

/-! # Walks over a growing registry

A walk asks for one declaration after the other and stops at the first that is missing. Up to there
it goes the same way in every later registry.

* `AgreeUntil`: two lists that correspond to each other up to a first element that is not good.
* `preorder_agreeUntil`: two walks with corresponding successors of good nodes.
* `isAssignable_stable`: subtyping is a stable query.
* `discoveryOrder_later`, `discoveryOrder_interned`: the order of discovery stays once its types are
  declared, and does not depend on array types.
-/

namespace PropertyTables
set_option autoImplicit false

/-! ## Corresponding walks -/

/-- Elements at one place are related, up to the first that is not good; what comes after it is of
no account. -/
inductive AgreeUntil {σ τ : Type} (good : σ → Prop) (R : σ → τ → Prop) : List σ → List τ → Prop
  | nil : AgreeUntil good R [] []
  | stop {a : σ} {b : τ} {as : List σ} {bs : List τ} (related : R a b) (bad : ¬ good a) :
      AgreeUntil good R (a :: as) (b :: bs)
  | cons {a : σ} {b : τ} {as : List σ} {bs : List τ} (related : R a b)
      (h : AgreeUntil good R as bs) : AgreeUntil good R (a :: as) (b :: bs)

theorem AgreeUntil.eq {σ : Type} {good : σ → Prop} {as bs : List σ}
    (h : AgreeUntil good Eq as bs) (all : ∀ a ∈ as, good a) : as = bs := by
  induction h with
  | nil => rfl
  | stop related bad => exact absurd (all _ List.mem_cons_self) bad
  | cons related _ ih =>
    rw [related, ih fun a ha => all a (List.mem_cons_of_mem _ ha)]

section Nodes
variable {σ τ : Type} {key : σ → TypeId} {expand : σ → List σ} {key' : τ → TypeId}
  {expand' : τ → List τ} {size size' : Nat} {good : σ → Prop} {R : σ → τ → Prop}

theorem preorder_cons_visited {visited : List TypeId} {s : σ} (rest : List σ)
    (met : key s ∈ visited) :
    preorder key expand size visited (s :: rest) = preorder key expand size visited rest := by
  rw [preorder, if_pos met]

theorem preorder_cons_fresh {visited : List TypeId} {s : σ} (rest : List σ)
    (fresh : key s ∉ visited) :
    preorder key expand size visited (s :: rest) = s :: preorder key expand size (key s :: visited)
      ((if (key s).index < size then expand s else []) ++ rest) := by
  rw [preorder, if_neg fresh]
  split <;> rfl

theorem preorder_agreeUntil (keys : ∀ a b, R a b → key a = key' b)
    (successors : ∀ a b, R a b → good a →
      List.Forall₂ R (if (key a).index < size then expand a else [])
        (if (key' b).index < size' then expand' b else []))
    (visited : List TypeId) {pending : List σ} {pending' : List τ}
    (related : List.Forall₂ R pending pending') :
    AgreeUntil good R (preorder key expand size visited pending)
      (preorder key' expand' size' visited pending') := by
  fun_induction preorder key expand size visited pending generalizing pending' with
  | case1 visited =>
    cases related
    rw [preorder]
    exact .nil
  | case2 visited s rest met ih =>
    obtain _ | ⟨hab, rests⟩ := related
    rw [preorder_cons_visited _ (keys _ _ hab ▸ met)]
    exact ih rests
  | case3 visited s rest fresh bound ih =>
    obtain _ | ⟨hab, rests⟩ := related
    rw [preorder_cons_fresh _ (keys _ _ hab ▸ fresh), ← keys _ _ hab]
    by_cases goes_on : good s
    · have next := successors _ _ hab goes_on
      rw [if_pos bound, ← keys _ _ hab] at next
      exact .cons hab (ih (List.rel_append next rests))
    · exact .stop hab goes_on
  | case4 visited s rest fresh out ih =>
    obtain _ | ⟨hab, rests⟩ := related
    rw [preorder_cons_fresh _ (keys _ _ hab ▸ fresh), ← keys _ _ hab]
    by_cases goes_on : good s
    · have next := successors _ _ hab goes_on
      rw [if_neg out, ← keys _ _ hab] at next
      exact .cons hab (ih (List.rel_append next rests))
    · exact .stop hab goes_on

end Nodes

namespace Registry

variable {r later : Registry}

theorem GrowsTo.find? (grows : r.GrowsTo later) {id : TypeId} (declared : r.Published id) :
    later.find? id = r.find? id := by
  obtain ⟨d, found⟩ := published_iff.mp declared
  rw [found, grows.declared id d found]

theorem GrowsTo.typeParams (grows : r.GrowsTo later) {id : TypeId} (declared : r.Published id) :
    later.typeParams id = r.typeParams id := by
  rw [Registry.typeParams, Registry.typeParams, grows.find? declared]

theorem Published.lt_size {id : TypeId} (h : r.Published id) : id.index < r.size := by
  obtain ⟨d, found⟩ := published_iff.mp h
  exact lt_size_of_find? found

/-- Walks over identities correspond as long as they meet declared types. -/
theorem walk_agreeUntil (grows : r.GrowsTo later) {next next' : TypeId → List TypeId}
    (successors : ∀ id, r.Published id → next' id = next id) (visited pending : List TypeId) :
    AgreeUntil r.Published Eq (preorder (fun t => t) next r.size visited pending)
      (preorder (fun t => t) next' later.size visited pending) := by
  refine preorder_agreeUntil (fun _ _ same => same) ?_ visited (List.forall₂_eq_eq_eq ▸ rfl)
  rintro id _ rfl declared
  rw [if_pos declared.lt_size, if_pos (grows.declared.published declared).lt_size,
    successors id declared, List.forall₂_eq_eq_eq]

/-! ## Subtyping -/

theorem GrowsTo.supertypes (grows : r.GrowsTo later) {id : TypeId} (declared : r.Published id) :
    later.supertypes id = r.supertypes id := by
  simp only [Registry.supertypes, Registry.superinterfaces, Registry.superclass?,
    grows.find? declared]

theorem findAmong_later (grows : r.GrowsTo later) {target : TypeId} {l l' : List TypeId}
    (agree : AgreeUntil r.Published Eq l l') {answer : Bool}
    (done : r.findAmong target l = .ok answer) : later.findAmong target l' = .ok answer := by
  induction agree with
  | nil => exact done
  | @stop id _ as bs related bad =>
    subst related
    rw [findAmong] at done ⊢
    by_cases here : id = target
    · rw [if_pos here] at done ⊢
      exact done
    · rw [if_neg here] at done
      split at done
      · cases done
      · rename_i d found
        exact absurd (Published.of_find? (find_eq_ok.mp found)) bad
  | @cons id _ as bs related _ ih =>
    subst related
    rw [findAmong] at done ⊢
    by_cases here : id = target
    · rw [if_pos here] at done ⊢
      exact done
    · rw [if_neg here] at done ⊢
      split at done
      · cases done
      · rename_i d found
        rw [grows.find found]
        exact ih done

theorem reaches_stable (target source : TypeId) : Stable (·.reaches target source) :=
  fun _ _ _ done grows =>
    findAmong_later grows (walk_agreeUntil grows (fun _ => grows.supertypes) [] [source]) done

theorem isAssignable_of_ne (r : Registry) {target source : TypeId} (differ : target ≠ source) :
    r.isAssignable target source = (do
      let t ← r.find target
      let s ← r.find source
      if t.flavor.isPrimitive || s.flavor.isPrimitive then return false
      else if target = .object then return true
      else
        match t.flavor, s.flavor with
        | .array component, .array element => r.isAssignable component element
        | .array _, _ => return false
        | _, .array _ => return false
        | _, _ => r.reaches target source) := by
  conv => lhs; unfold isAssignable
  rw [if_neg differ, find, find]
  split
  · rename_i ht
    rw [ht]
    rfl
  · rename_i hs declared
    cases ht : r.find? target with
    | none => exact absurd ht declared
    | some t =>
      rw [hs]
      rfl
  · rename_i t s ht hs
    rw [ht, hs]
    show _ = if _ then _ else _
    split
    · rfl
    · split
      · rfl
      · split <;> simp [*, pure, Except.pure]

theorem isAssignable_later (grows : r.GrowsTo later) {answer : Bool} {target source : TypeId}
    (done : r.isAssignable target source = .ok answer) :
    later.isAssignable target source = .ok answer := by
  by_cases same : target = source
  · subst same
    rw [isAssignable, if_pos rfl] at done ⊢
    exact done
  · rw [isAssignable_of_ne _ same] at done ⊢
    obtain ⟨t, ht, done⟩ := bind_eq_ok.mp done
    obtain ⟨s, hs, done⟩ := bind_eq_ok.mp done
    refine bind_eq_ok.mpr ⟨t, grows.find ht, bind_eq_ok.mpr ⟨s, grows.find hs, ?_⟩⟩
    by_cases primitive : (t.flavor.isPrimitive || s.flavor.isPrimitive) = true
    · rw [if_pos primitive] at done ⊢
      exact done
    · rw [if_neg primitive] at done ⊢
      by_cases top : target = .object
      · rw [if_pos top] at done ⊢
        exact done
      · rw [if_neg top] at done ⊢
        split at done
        · rename_i component element above below
          have smaller := component_lt_of_find? (find_eq_ok.mp ht) above
          exact isAssignable_later grows done
        · exact done
        · exact done
        · exact reaches_stable _ _ _ _ _ done grows
termination_by target.index

theorem isAssignable_stable (target source : TypeId) : Stable (·.isAssignable target source) :=
  fun _ _ _ done grows => isAssignable_later grows done

/-! ## The order of discovery -/

theorem GrowsTo.superinterfaces (grows : r.GrowsTo later) {id : TypeId}
    (declared : r.Published id) : later.superinterfaces id = r.superinterfaces id := by
  rw [Registry.superinterfaces, Registry.superinterfaces, grows.find? declared]

/-- Once the types of a discovery are declared, it goes the same way in every later registry. -/
theorem discoveryOrder_later (grows : r.GrowsTo later) {visited chain : List TypeId}
    (declared : ∀ id ∈ r.discoveryOrder visited chain, r.Published id) :
    later.discoveryOrder visited chain = r.discoveryOrder visited chain := by
  induction chain generalizing visited with
  | nil => rfl
  | cons id rest ih =>
    rw [discoveryOrder] at declared
    have here : r.Published id := declared id (by simp)
    have walks := walk_agreeUntil grows (fun _ => grows.superinterfaces) visited
      (r.superinterfaces id)
    have met : later.interfaceWalk (fun l => l) visited (r.superinterfaces id) =
        r.interfaceWalk (fun l => l) visited (r.superinterfaces id) := by
      refine (walks.eq fun t ht => declared t ?_).symm
      simp only [List.mem_append, List.mem_cons]
      exact .inl (.inr ht)
    rw [discoveryOrder, discoveryOrder, grows.superinterfaces here, met]
    rw [ih fun t ht => declared t (List.mem_append_right _ ht)]

theorem superinterfaces_within (r : Registry) (id : TypeId) :
    (if id.index < r.size then r.superinterfaces id else []) = r.superinterfaces id := by
  split
  · rfl
  · rename_i out
    cases found : r.find? id with
    | none => rw [Registry.superinterfaces, found, Option.elim_none]
    | some d => exact absurd (lt_size_of_find? found) out

/-- Array types have no interfaces, so interning them leaves every discovery as it was. -/
theorem discoveryOrder_interned {grown : Registry} (interned : r.Interns grown)
    (visited chain : List TypeId) :
    grown.discoveryOrder visited chain = r.discoveryOrder visited chain := by
  have walks (visited pending : List TypeId) :
      r.interfaceWalk (fun l => l) visited pending =
        grown.interfaceWalk (fun l => l) visited pending := by
    have agree : AgreeUntil (fun _ => True) Eq (r.interfaceWalk (fun l => l) visited pending)
        (grown.interfaceWalk (fun l => l) visited pending) := by
      refine preorder_agreeUntil (fun _ _ same => same) ?_ visited (List.forall₂_eq_eq_eq ▸ rfl)
      rintro id _ rfl -
      rw [superinterfaces_within, superinterfaces_within, interned.superinterfaces_eq,
        List.forall₂_eq_eq_eq]
    exact agree.eq fun _ _ => .intro
  induction chain generalizing visited with
  | nil => rfl
  | cons id rest ih =>
    rw [discoveryOrder, discoveryOrder, interned.superinterfaces_eq, ← walks, ih]

end Registry

end PropertyTables
